import MiniLisp.Proofs.Lockstep

/-!
# Links between frames

In most simulations the frames of the one run are linked to frames of the other. A link may tell
more than that the two frames go together: the names that stand for the same in both, or which name
of the one stands for what another stands for in the other. In all of these simulations links are
added when both runs make a new frame, and stay; closures match by what the link between the frames
in which they were made tells, and what was printed and logged goes together in one of two ways.

## Main definitions

* `World.SameTraces view w w'`: the output is the same, and the log too as far as `view` shows it
* `World.printed`: the values printed so far
* `PrintedSince before V w w'`: what was printed in two worlds since the values `before`
* `Links ι`: which frame is linked to which, and how
* `Links.closure K l`, `Links.value K l`: closures and values that match
* `Links.There l s s'`: the frames that are linked are there
* `Links.NamesMatch K l s s'`: names that correspond have matching values in frames that are linked
* `Links.still G`: each frame of `G` linked to itself

## Main results

* `Links.value_mono`: values that match do so when there are more links
* `Links.There.push_add`, `Links.NamesMatch.push`: links between new frames
* `Links.still_namesMatch`: a region without host procedures, linked to itself
* `Links.lockstep_enter`: new frames, in lockstep
-/

namespace MiniLisp

/-! ## Traces that are the same -/

/-- The output is the same, and so is the log as far as `view` shows it. -/
structure World.SameTraces {τ : Type} (view : Event → τ) (w w' : World) : Prop where
  echo : w.echo = w'.echo
  output : w.output = w'.output
  events : w.events.toList.map view = w'.events.toList.map view

namespace World.SameTraces

variable {τ : Type} {view : Event → τ} {w w' : World}

theorem refl (w : World) : SameTraces view w w := ⟨rfl, rfl, rfl⟩

theorem events_eq (h : SameTraces id w w') : w.events = w'.events := by
  simpa [← Array.toList_inj] using h.events

/-- One more entry in each log, which look the same. -/
theorem log (h : SameTraces view w w') {x x' : Event} (hx : view x = view x') :
    SameTraces view (w.log x) (w'.log x') where
  echo := h.echo
  output := h.output
  events := by simp [World.log, h.events, hx]

/-- Each run prints one more value, and these look the same. -/
theorem print (h : SameTraces view w w') {v v' : Value} (hv : v.display false = v'.display false)
    (hx : view (.printed v) = view (.printed v')) :
    SameTraces view (w.print v) (w'.print v') where
  echo := h.echo
  output := by simp only [World.print, h.echo, h.output, hv]
  events := (h.log hx).events

end World.SameTraces

/-! ## Traces that correspond -/

/-- The value that an entry of the log says was printed. -/
def Event.printed? : Event → Option Value
  | printed v => some v
  | _ => none

/-- The values printed so far. -/
def World.printed (w : World) : List Value := w.events.toList.filterMap Event.printed?

/-- Since the values `before`, values were printed in both worlds that are related by `V` one by
one. -/
def PrintedSince (before : List Value) (V : Value → Value → Prop) (w w' : World) : Prop :=
  ∃ vs vs', w.printed = before ++ vs ∧ w'.printed = before ++ vs' ∧ List.Forall₂ V vs vs'

namespace PrintedSince

variable {before : List Value} {V V' : Value → Value → Prop} {w w' : World}

theorem refl (w : World) : PrintedSince w.printed V w w := ⟨[], [], by simp, by simp, .nil⟩

theorem imp (h : PrintedSince before V w w') (hV : ∀ v v', V v v' → V' v v') :
    PrintedSince before V' w w' := by
  obtain ⟨vs, vs', hvs, hvs', hv⟩ := h
  exact ⟨vs, vs', hvs, hvs', hv.imp hV⟩

/-- Entries of the first log that print nothing are of no account. -/
theorem log_left (h : PrintedSince before V w w') {x : Event} (hx : x.printed? = none) :
    PrintedSince before V (w.log x) w' := by
  obtain ⟨vs, vs', hvs, hvs', hv⟩ := h
  refine ⟨vs, vs', ?_, hvs', hv⟩
  simpa [World.printed, World.log, hx] using hvs

/-- Entries of the second log that print nothing are of no account. -/
theorem log_right (h : PrintedSince before V w w') {x : Event} (hx : x.printed? = none) :
    PrintedSince before V w (w'.log x) := by
  obtain ⟨vs, vs', hvs, hvs', hv⟩ := h
  refine ⟨vs, vs', hvs, ?_, hv⟩
  simpa [World.printed, World.log, hx] using hvs'

theorem log (h : PrintedSince before V w w') {x x' : Event} (hx : x.printed? = none)
    (hx' : x'.printed? = none) : PrintedSince before V (w.log x) (w'.log x') :=
  (h.log_left hx).log_right hx'

/-- Each run prints one more value, and the two are related. -/
theorem print (h : PrintedSince before V w w') {v v' : Value} (hv : V v v') :
    PrintedSince before V (w.print v) (w'.print v') := by
  obtain ⟨vs, vs', hvs, hvs', hvv⟩ := h
  refine ⟨vs ++ [v], vs' ++ [v'], ?_, ?_, List.rel_append hvv (.cons hv .nil)⟩
  · rw [← List.append_assoc, ← hvs]
    simp [World.printed, World.print, World.log, Event.printed?]
  · rw [← List.append_assoc, ← hvs']
    simp [World.printed, World.print, World.log, Event.printed?]

end PrintedSince

/-! ## Links -/

/-- Which frame of a first run is linked to which frame of a second one, and how. -/
abbrev Links (ι : Type) := FrameId → FrameId → ι → Prop

namespace Links

variable {ι : Type}

/-- The links and one more, between `p` and `q`. -/
def add (l : Links ι) (p q : FrameId) (i : ι) : Links ι :=
  fun p' q' j => l p' q' j ∨ p' = p ∧ q' = q ∧ j = i

theorem le_add (l : Links ι) (p q : FrameId) (i : ι) : l ≤ l.add p q i := fun _ _ _ => .inl

/-- The frames that are linked are there. -/
structure There (l : Links ι) (s s' : Store) : Prop where
  left {p q : FrameId} {i : ι} : l p q i → p < s.nextId
  right {p q : FrameId} {i : ι} : l p q i → q < s'.nextId

variable {l l' : Links ι} {s s' : Store}

theorem There.add (h : l.There s s') {p q : FrameId} (hp : p < s.nextId) (hq : q < s'.nextId)
    (i : ι) : (l.add p q i).There s s' := by
  constructor
  · rintro p' q' j (hl | ⟨rfl, -, -⟩)
    · exact h.left hl
    · exact hp
  · rintro p' q' j (hl | ⟨-, rfl, -⟩)
    · exact h.right hl
    · exact hq

theorem There.push (h : l.There s s') (b b' : Bindings) (o o' : Option FrameId) :
    l.There (s.push b o) (s'.push b' o') := by
  constructor
  · intro p q i hl
    rw [Store.nextId_push]
    exact Nat.lt_succ_of_lt (h.left hl)
  · intro p q i hl
    rw [Store.nextId_push]
    exact Nat.lt_succ_of_lt (h.right hl)

/-- New frames may be linked. -/
theorem There.push_add (h : l.There s s') (b b' : Bindings) (o o' : Option FrameId) (i : ι) :
    (l.add s.nextId s'.nextId i).There (s.push b o) (s'.push b' o') := by
  refine (h.push b b' o o').add ?_ ?_ i
  · rw [Store.nextId_push]
    exact Nat.lt_succ_self _
  · rw [Store.nextId_push]
    exact Nat.lt_succ_self _

/-! ### Values -/

section Values

variable (K : ι → Closure → Closure → Prop)

/-- The frames in which the closures were made are linked, and the closures are related by `K` of
that link. -/
def closure (l : Links ι) (c c' : Closure) : Prop := ∃ i, l c.scope c'.scope i ∧ K i c c'

/-- Values that are equal but for closures that match, and hold no host procedures. -/
def value (l : Links ι) : Value → Value → Prop :=
  Value.Matches Procedure.IsBuiltin (l.closure K)

variable {K}

theorem closure_mono (hl : l ≤ l') {c c' : Closure} (h : l.closure K c c') :
    l'.closure K c c' := by
  obtain ⟨i, hi, hK⟩ := h
  exact ⟨i, hl _ _ _ hi, hK⟩

theorem value_mono (hl : l ≤ l') {v v' : Value} (h : l.value K v v') : l'.value K v v' :=
  Value.Matches.mono (fun _ _ => closure_mono hl) h

end Values

/-! ### Names that correspond -/

section Names

variable {K : Names → Closure → Closure → Prop} {l : Links Names}

/-- Names that correspond have matching values in frames that are linked. -/
structure NamesMatch (K : Names → Closure → Closure → Prop) (l : Links Names) (s s' : Store) :
    Prop extends l.There s s' where
  lookup {p q : FrameId} {R : Names} {x y : String} :
    l p q R → R x y → l.value K (s.lookup p (.name x)) (s'.lookup q (.name y))

/-- Frames in which corresponding names have matching values may be linked. -/
theorem NamesMatch.add (h : l.NamesMatch K s s') {p q : FrameId} {R : Names} (hp : p < s.nextId)
    (hq : q < s'.nextId)
    (hR : ∀ x y, R x y → l.value K (s.lookup p (.name x)) (s'.lookup q (.name y))) :
    (l.add p q R).NamesMatch K s s' where
  toThere := h.toThere.add hp hq R
  lookup := by
    rintro p' q' R' x y (hl | ⟨rfl, rfl, rfl⟩) hxy
    · exact value_mono (le_add _ _ _ _) (h.lookup hl hxy)
    · exact value_mono (le_add _ _ _ _) (hR x y hxy)

/-- Frames that bind names to matching values, inside frames that are linked, may be linked with
these names corresponding to each other. -/
theorem NamesMatch.push (h : l.NamesMatch K s s') {p q : FrameId} {R : Names} (hR : l p q R)
    {es es' : List (String × Value)}
    (he : List.Forall₂ (l.value K) (es.map Prod.snd) (es'.map Prod.snd)) :
    (l.add s.nextId s'.nextId (R.bindAll (es.map Prod.fst) (es'.map Prod.fst))).NamesMatch K
      (s.push (.ofNames es) (some p)) (s'.push (.ofNames es') (some q)) := by
  have hpushed : l.NamesMatch K (s.push (.ofNames es) (some p)) (s'.push (.ofNames es') (some q)) :=
    { h.toThere.push _ _ _ _ with
      lookup := fun hl hxy => by
        rw [Store.lookup_push_of_lt _ _ (h.left hl), Store.lookup_push_of_lt _ _ (h.right hl)]
        exact h.lookup hl hxy }
  refine hpushed.add ?_ ?_ fun x y hxy => ?_
  · rw [Store.nextId_push]
    exact Nat.lt_succ_self _
  · rw [Store.nextId_push]
    exact Nat.lt_succ_self _
  · rw [Store.lookup_push_self _ (h.left hR), Store.lookup_push_self _ (h.right hR)]
    have hempty : ∀ x y, R x y →
        l.value K ((Bindings.get? [] (.name x)).getD (s.lookup p (.name x)))
          ((Bindings.get? [] (.name y)).getD (s'.lookup q (.name y))) :=
      fun x y hxy => h.lookup hR hxy
    exact Names.matches_setAll he hempty hxy

/-- The frames of `G`, each linked to itself with each name corresponding to itself. -/
def still (G : FrameId → Prop) : Links Names := fun p q R => p = q ∧ G p ∧ R = Eq

/-- Frames of a region without host procedures may be linked to themselves, also where they look
the same in another store. -/
theorem still_namesMatch {G : FrameId → Prop} {s₀ : Store} (hK : ∀ c, K Eq c c)
    (hs : s₀.Sealed G (Value.Each (Value.Within G))) (hG : ∀ p, G p → p < s₀.nextId)
    (hsize : s₀.nextId ≤ s.nextId)
    (hsame : ∀ p, G p → ∀ x, s.lookup p (.name x) = s₀.lookup p (.name x)) :
    (still G).NamesMatch K s s₀ where
  left := by
    rintro p q R ⟨-, hp, -⟩
    exact Nat.lt_of_lt_of_le (hG p hp) hsize
  right := by
    rintro p q R ⟨rfl, hp, -⟩
    exact hG p hp
  lookup := by
    rintro p q R x y ⟨rfl, hp, rfl⟩ rfl
    rw [hsame p hp]
    have hwithin := hs.lookup (Value.Each.of_not_list (by simp) trivial) hp (.name x)
    exact Value.Matches.of_within hwithin fun c hc => ⟨Eq, ⟨rfl, hc, rfl⟩, hK c⟩

end Names

/-! ### Lockstep -/

/-- New frames that may be linked. -/
theorem lockstep_enter {S : Simulation (Links ι)} {b b' : Bindings} {o o' : Option FrameId} {i : ι}
    (h : ∀ {l' w w'}, l ≤ l' → S.worlds l' w w' →
      S.worlds (l'.add w.store.nextId w'.store.nextId i) (w.enter b o) (w'.enter b' o')) :
    S.Lockstep l (fun l' g g' => l' g g' i) (Eval.enter b o) (Eval.enter b' o') :=
  fun _ hl _ _ hw => .ok (le_add _ _ _ _) (h hl hw) (.inr ⟨rfl, rfl, rfl⟩)

end Links

end MiniLisp
