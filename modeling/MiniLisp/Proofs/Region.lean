import MiniLisp.Eval.Procedure

/-!
# Regions of the store

What can be reached from a frame: the frames around it, the frames that the closures bound in it
have captured, and so on. Regions of the store are closed under this, and every lookup that begins
in a region stays in it.

## Main definitions

* `Value.Holds v u`: the value `u` is `v` itself or stands in `v`, at any depth
* `Value.Within G v`: no host procedure, and no closure that was made outside of `G`
* `Store.Reaches s f g`: the frame `g` can be reached from the frame `f`
* `Store.HostFree s f`: no host procedure can be reached from `f`
* `Store.WellFormed s`: frames and closures refer to frames that are there
* `Store.Sealed s G P`: the frames of the region `G` lie within `G` and bind values that satisfy `P`

## Main results

* `Store.lookup_eq`: a lookup, one frame at a time
* `Store.lookup_congr`: what a lookup depends on
* `Store.lookup_push_self`, `Store.lookup_push_of_lt`: lookups after a new frame
* `Store.forall_mem_chain`, `Store.lookup_of_forall_mem_chain`: what holds of all frames outwards,
  and of what is found there
* `Store.Sealed.lookup`: what is found from a region satisfies what its values satisfy
* `Store.HostFree.sealed`: what can be reached from a frame is a region
* `Store.WellFormed.push`: a store stays well formed when a frame is made
-/

namespace MiniLisp

/-! ## Bindings -/

namespace Bindings

variable {b : Bindings} {k : Key} {v : Value}

theorem mem_of_get? (h : b.get? k = some v) : ∃ k', (k', v) ∈ b := by
  induction b with
  | nil => cases h
  | cons e b ih =>
    simp only [get?] at h
    split at h
    · cases h
      exact ⟨_, List.mem_cons_self⟩
    · obtain ⟨k', hk'⟩ := ih h
      exact ⟨k', List.mem_cons_of_mem _ hk'⟩

theorem mem_set {e : Key × Value} (h : e ∈ b.set k v) : e ∈ b ∨ e.2 = v := by
  induction b with
  | nil => exact .inr (by rw [List.mem_singleton.mp h])
  | cons e' b ih =>
    simp only [set] at h
    split at h
    · rcases List.mem_cons.mp h with rfl | h
      · exact .inr rfl
      · exact .inl (List.mem_cons_of_mem _ h)
    · rcases List.mem_cons.mp h with rfl | h
      · exact .inl List.mem_cons_self
      · exact (ih h).imp_left (List.mem_cons_of_mem _)

theorem mem_setAll {entries : List (Key × Value)} {e : Key × Value}
    (h : e ∈ b.setAll entries) : e ∈ b ∨ e.2 ∈ entries.map Prod.snd := by
  induction entries generalizing b with
  | nil => exact .inl h
  | cons x entries ih =>
    simp only [List.map_cons, List.mem_cons]
    rcases ih (b := b.set x.1 x.2) h with h | h
    · exact (mem_set h).imp_right .inl
    · exact .inr (.inr h)

/-- The values of bindings that were given in order are among the values given. -/
theorem mem_ofNames {entries : List (String × Value)} {e : Key × Value}
    (h : e ∈ ofNames entries) : e.2 ∈ entries.map Prod.snd := by
  rcases mem_setAll h with h | h
  · cases h
  · simpa using h

/-- What setting a name does to lookups. -/
theorem get?_set (b : Bindings) (n : String) (v : Value) (k : Key) :
    (b.set (.name n) v).get? k = if (Key.name n).same k then some v else b.get? k := by
  have hname : ∀ {k : Key}, (Key.name n).same k = true → k = .name n := by
    intro k hk
    cases k with
    | name m => rw [beq_iff_eq.mp hk]
    | other u => cases hk
  induction b with
  | nil => rfl
  | cons e b ih =>
    obtain ⟨k', w⟩ := e
    by_cases hk' : k'.same (.name n) = true
    · obtain rfl : k' = .name n := by
        cases k' with
        | name m => rw [beq_iff_eq.mp hk']
        | other u => cases hk'
      rw [set, if_pos hk', get?, get?]
      split <;> rfl
    · rw [set, if_neg hk', get?, get?, ih]
      split
      · next hk =>
        rw [if_neg fun h => hk' (hname h ▸ hk)]
      · rfl

/-- A name that was not given is not bound. -/
theorem get?_ofNames_of_notMem {es : List (String × Value)} {x : String}
    (h : x ∉ es.map Prod.fst) : (ofNames es).get? (.name x) = none := by
  have hall : ∀ b : Bindings, b.get? (.name x) = none →
      (b.setAll (es.map fun e => (.name e.1, e.2))).get? (.name x) = none := by
    induction es with
    | nil => exact fun b hb => hb
    | cons e es ih =>
      rw [List.map_cons, List.mem_cons, not_or] at h
      intro b hb
      refine ih h.2 (b.set (.name e.1) e.2) ?_
      rw [get?_set_of_ne b e.2 h.1, hb]
  exact hall [] rfl

end Bindings

/-! ## Lookups -/

namespace Store

variable (s : Store)

/-- A lookup, one frame at a time. -/
theorem lookup_eq (f : FrameId) (k : Key) :
    s.lookup f k = ((s.frame f).bindings.get? k).getD
      (match (s.frame f).outer with
        | some g => if g < f then s.lookup g k else .undefined
        | none => .undefined) := by
  rw [lookup, find?, chain]
  cases hk : (s.frame f).bindings.get? k with
  | some v => simp [Bindings.binds, hk]
  | none =>
    simp only [List.find?_cons, Bindings.binds, hk, Option.isSome_none, Option.getD_none]
    cases (s.frame f).outer with
    | none => rfl
    | some g => by_cases hg : g < f <;> simp [hg, lookup, find?, Bindings.binds]

theorem lookup_of_get? {f : FrameId} {k : Key} {v : Value}
    (h : (s.frame f).bindings.get? k = some v) : s.lookup f k = v := by
  rw [lookup_eq, h]
  rfl

/-- A frame is the new one or is as it was. -/
theorem frame_push (b : Bindings) (o : Option FrameId) (f : FrameId) :
    f = s.nextId ∧ (s.push b o).frame f = ⟨b, o⟩ ∨ (s.push b o).frame f = s.frame f := by
  by_cases hf : f = s.nextId
  · exact .inl ⟨hf, hf ▸ frame_push_self s b o⟩
  · refine .inr ?_
    have hf' : f ≠ s.frames.size := hf
    simp [frame, Store.push, Array.getElem?_push, hf']

theorem frame_push_of_ne (s : Store) (b : Bindings) (o : Option FrameId) {f : FrameId}
    (h : f ≠ s.nextId) : (s.push b o).frame f = s.frame f :=
  (frame_push s b o f).elim (fun hf => absurd hf.1 h) id

/-- A frame that was not made is empty. -/
theorem frame_of_le {s : Store} {f : FrameId} (h : s.nextId ≤ f) : s.frame f = ⟨[], none⟩ := by
  have hf : s.frames.size ≤ f := h
  simp [frame, Array.getElem?_eq_none hf]

/-- There is no binding in a frame that was not made. -/
theorem bind_of_le {s : Store} {f : FrameId} (h : s.nextId ≤ f) (n : String) (v : Value) :
    s.bind f n v = s := by
  have hf : ¬ f < s.frames.size := Nat.not_lt.mpr h
  have hsame : s.frames.modify f (fun fr => ⟨fr.bindings.set (.name n) v, fr.outer⟩) =
      s.frames := by
    apply Array.ext_getElem?
    intro i
    rw [Array.getElem?_modify]
    split
    · next hi =>
      subst hi
      simp [hf]
    · rfl
  rw [bind, hsame]

/-- A binding leaves all frames inside the frames that they were in. -/
theorem outer_bind (s : Store) (e : FrameId) (n : String) (v : Value) (f : FrameId) :
    ((s.bind e n v).frame f).outer = (s.frame f).outer := by
  by_cases hf : f = e
  · subst hf
    rcases Nat.lt_or_ge f s.nextId with hlt | hle
    · rw [frame_bind_self s n v hlt]
    · rw [bind_of_le hle]
  · rw [frame_bind_of_ne s n v hf]

/-- A binding changes the bindings of one frame, if that is there. -/
theorem bindings_bind (s : Store) (f : FrameId) (n : String) (v : Value) (g : FrameId) :
    ((s.bind f n v).frame g).bindings = (s.frame g).bindings.set (.name n) v ∨
      ((s.bind f n v).frame g).bindings = (s.frame g).bindings := by
  by_cases hg : g = f
  · subst hg
    rcases Nat.lt_or_ge g s.nextId with hlt | hle
    · exact .inl (by rw [frame_bind_self s n v hlt])
    · exact .inr (by rw [bind_of_le hle])
  · exact .inr (by rw [frame_bind_of_ne s n v hg])

variable {s}

/-- A lookup depends on the frames outwards, which are older ones, and on what they bind the key
to. -/
theorem lookup_congr {s' : Store} {f : FrameId} {k : Key}
    (hget : ∀ g ≤ f, (s.frame g).bindings.get? k = (s'.frame g).bindings.get? k)
    (houter : ∀ g ≤ f, (s.frame g).outer = (s'.frame g).outer) : s.lookup f k = s'.lookup f k := by
  induction f using Nat.strongRecOn with
  | ind f ih =>
    rw [lookup_eq, lookup_eq s', hget f (Nat.le_refl f), houter f (Nat.le_refl f)]
    congr 1
    cases (s'.frame f).outer with
    | none => rfl
    | some g =>
      by_cases hg : g < f
      · simp only [hg, if_true]
        exact ih g hg (fun g' hg' => hget g' (Nat.le_trans hg' (Nat.le_of_lt hg)))
          fun g' hg' => houter g' (Nat.le_trans hg' (Nat.le_of_lt hg))
      · simp only [hg, if_false]

/-- A new frame does not matter to the lookups that begin in the others. -/
theorem lookup_push_of_lt (b : Bindings) (o : Option FrameId) {f : FrameId} (h : f < s.nextId)
    (k : Key) : (s.push b o).lookup f k = s.lookup f k := by
  have hframe : ∀ g ≤ f, (s.push b o).frame g = s.frame g :=
    fun g hg => frame_push_of_lt s b o (Nat.lt_of_le_of_lt hg h)
  exact lookup_congr (fun g hg => by rw [hframe g hg]) fun g hg => by rw [hframe g hg]

/-- A lookup that begins in a new frame goes on outside of it. -/
theorem lookup_push_self (b : Bindings) {o : FrameId} (h : o < s.nextId) (k : Key) :
    (s.push b (some o)).lookup s.nextId k = (b.get? k).getD (s.lookup o k) := by
  rw [lookup_eq, frame_push_self]
  simp only [h, if_true, lookup_push_of_lt b (some o) h]

/-! ### The way outwards -/

variable {f g o : FrameId}

/-- A lookup tells the first value on the way outwards. -/
theorem lookup_eq_findSome? (s : Store) (f : FrameId) (k : Key) :
    s.lookup f k =
      ((s.chain f).findSome? fun g => (s.frame g).bindings.get? k).getD .undefined := by
  rw [lookup, find?]
  induction s.chain f with
  | nil => rfl
  | cons g l ih =>
    cases hv : (s.frame g).bindings.get? k with
    | some v => simp [Bindings.binds, hv]
    | none => simpa [Bindings.binds, hv] using ih

/-- The way outwards goes from the frame `g` to the frame `o`, which is an older one. -/
def Outside (s : Store) (g o : FrameId) : Prop := (s.frame g).outer = some o ∧ o < g

theorem chain_eq_cons (h : s.Outside f o) : s.chain f = f :: s.chain o := by
  rw [chain, h.1]
  simp only [h.2, if_true]

theorem chain_eq_singleton (h : ∀ o, ¬ s.Outside f o) : s.chain f = [f] := by
  rw [chain]
  cases ho : (s.frame f).outer with
  | none => rfl
  | some o => simp only [show ¬ o < f from fun hlt => h o ⟨ho, hlt⟩, if_false]

/-- What is closed under going outwards has in it the whole way outwards. -/
theorem forall_mem_chain {G : FrameId → Prop} (hG : ∀ g o, G g → s.Outside g o → G o) (hf : G f) :
    ∀ g ∈ s.chain f, G g := by
  induction f using Nat.strongRecOn with
  | ind f ih =>
    by_cases ho : ∃ o, s.Outside f o
    · obtain ⟨o, ho⟩ := ho
      rw [chain_eq_cons ho]
      exact List.forall_mem_cons.mpr ⟨hf, ih o ho.2 (hG f o hf ho)⟩
    · rw [chain_eq_singleton (not_exists.mp ho)]
      exact List.forall_mem_singleton.mpr hf

/-- The way outwards goes on to its end. -/
theorem mem_chain_of_outside (hg : g ∈ s.chain f) (ho : s.Outside g o) : o ∈ s.chain f := by
  induction f using Nat.strongRecOn with
  | ind f ih =>
    by_cases hf : ∃ p, s.Outside f p
    · obtain ⟨p, hp⟩ := hf
      rw [chain_eq_cons hp] at hg ⊢
      rcases List.mem_cons.mp hg with rfl | hg
      · obtain rfl : o = p := Option.some.inj (ho.1.symm.trans hp.1)
        rw [chain]
        exact List.mem_cons_of_mem _ List.mem_cons_self
      · exact List.mem_cons_of_mem _ (ih p hp.2 hg)
    · rw [chain_eq_singleton (not_exists.mp hf), List.mem_singleton] at hg
      exact absurd ⟨o, hg ▸ ho⟩ hf

/-- A lookup finds nothing or a value that is bound on the way outwards. -/
theorem lookup_of_forall_mem_chain {P : Value → Prop} (hu : P .undefined)
    (h : ∀ g ∈ s.chain f, ∀ b ∈ (s.frame g).bindings, P b.2) (k : Key) : P (s.lookup f k) := by
  rw [lookup_eq_findSome?]
  cases hv : (s.chain f).findSome? fun g => (s.frame g).bindings.get? k with
  | none => exact hu
  | some v =>
    obtain ⟨g, hg, hget⟩ := List.exists_of_findSome?_eq_some hv
    obtain ⟨k', hk'⟩ := Bindings.mem_of_get? hget
    exact h g hg _ hk'

end Store

/-! ## What values hold -/

/-- The procedure is no host procedure. -/
def Procedure.IsBuiltin : Procedure → Prop
  | builtin _ => True
  | host _ => False

/-- `v.Holds u`: the value `u` is `v` itself or stands in `v`, at any depth. -/
inductive Value.Holds : Value → Value → Prop
  | self (v : Value) : Holds v v
  | item {vs : List Value} {v u : Value} : v ∈ vs → Holds v u → Holds (.list vs) u

namespace Value

/-- A value that is no list holds nothing but itself. -/
theorem holds_iff_of_not_list {v : Value} (hv : ∀ vs, v ≠ list vs) {u : Value} :
    v.Holds u ↔ u = v := by
  constructor
  · rintro (_ | _)
    · rfl
    · exact absurd rfl (hv _)
  · rintro rfl
    exact .self _

@[simp] theorem holds_number {n : Number} {u : Value} : (number n).Holds u ↔ u = number n :=
  holds_iff_of_not_list (by simp)

@[simp] theorem holds_str {s : String} {u : Value} : (str s).Holds u ↔ u = str s :=
  holds_iff_of_not_list (by simp)

@[simp] theorem holds_closure {formals : List String} {body : Expr} {f : FrameId} {u : Value} :
    (closure formals body f).Holds u ↔ u = closure formals body f :=
  holds_iff_of_not_list (by simp)

@[simp] theorem holds_procedure {p : Procedure} {u : Value} :
    (procedure p).Holds u ↔ u = procedure p :=
  holds_iff_of_not_list (by simp)

@[simp] theorem holds_list {vs : List Value} {u : Value} :
    (list vs).Holds u ↔ u = list vs ∨ ∃ v ∈ vs, v.Holds u := by
  constructor
  · rintro (_ | ⟨hv, hu⟩)
    · exact .inl rfl
    · exact .inr ⟨_, hv, hu⟩
  · rintro (rfl | ⟨v, hv, hu⟩)
    · exact .self _
    · exact .item hv hu

/-- All that the value holds satisfies `P`. -/
def Each (P : Value → Prop) (v : Value) : Prop := ∀ u, v.Holds u → P u

theorem each_list {P : Value → Prop} (hP : ∀ vs, P (list vs)) {vs : List Value} :
    Each P (list vs) ↔ ∀ v ∈ vs, Each P v := by
  constructor
  · intro h v hv u hu
    exact h u (.item hv hu)
  · intro h u hu
    rcases holds_list.mp hu with rfl | ⟨v, hv, hu⟩
    · exact hP vs
    · exact h v hv u hu

theorem Each.of_not_list {P : Value → Prop} {v : Value} (hv : ∀ vs, v ≠ list vs) (h : P v) :
    Each P v := by
  intro u hu
  rw [(holds_iff_of_not_list hv).mp hu]
  exact h

theorem Each.self {P : Value → Prop} {v : Value} (h : Each P v) : P v := h v (.self v)

theorem Each.imp {P Q : Value → Prop} {v : Value} (h : Each P v) (hPQ : ∀ u, P u → Q u) :
    Each Q v := fun u hu => hPQ u (h u hu)

/-- A procedure is a built-in one, and a closure was made in a frame of `G`. -/
def Within (G : FrameId → Prop) : Value → Prop
  | procedure p => p.IsBuiltin
  | closure _ _ f => G f
  | _ => True

theorem Within.mono {G G' : FrameId → Prop} (hG : ∀ f, G f → G' f) {v : Value}
    (h : Within G v) : Within G' v := by
  unfold Within at h ⊢
  split
  · exact h
  · exact hG _ h
  · trivial

end Value

/-! ## What frames reach -/

namespace Store

/-- The frame can be reached from the frame `f`: by going outwards, and into the frames that were
captured by closures, wherever these stand in values. -/
inductive Reaches (s : Store) (f : FrameId) : FrameId → Prop
  | self : Reaches s f f
  | outer {g o : FrameId} : Reaches s f g → (s.frame g).outer = some o → Reaches s f o
  | captured {g h : FrameId} {e : Key × Value} {formals : List String} {body : Expr} :
    Reaches s f g → e ∈ (s.frame g).bindings → e.2.Holds (.closure formals body h) → Reaches s f h

/-- No host procedure is bound in any frame that can be reached from `f`. -/
def HostFree (s : Store) (f : FrameId) : Prop :=
  ∀ g, s.Reaches f g → ∀ e ∈ (s.frame g).bindings, ∀ h, ¬ e.2.Holds (.procedure (.host h))

/-- Frames stand inside older ones, and closures were made in frames that are there. -/
structure WellFormed (s : Store) : Prop where
  outer_lt : ∀ {f o : FrameId}, (s.frame f).outer = some o → o < f
  scope_lt : ∀ {f : FrameId} {e : Key × Value} {formals : List String} {body : Expr}
    {scope : FrameId}, e ∈ (s.frame f).bindings → e.2.Holds (.closure formals body scope) →
      scope < s.nextId

/-- The frames of a region lie within the region and bind values that satisfy `P`. -/
structure Sealed (s : Store) (G : FrameId → Prop) (P : Value → Prop) : Prop where
  outer : ∀ {f o : FrameId}, G f → (s.frame f).outer = some o → G o
  value : ∀ {f : FrameId} {e : Key × Value}, G f → e ∈ (s.frame f).bindings → P e.2

variable {s : Store} {G : FrameId → Prop} {P : Value → Prop}

theorem Reaches.trans {f g h : FrameId} (hg : s.Reaches f g) (hh : s.Reaches g h) :
    s.Reaches f h := by
  induction hh with
  | self => exact hg
  | outer _ ho ih => exact ih.outer ho
  | captured _ he hc ih => exact ih.captured he hc

/-- What can be reached from a frame that is there is there. -/
theorem WellFormed.reaches_lt (hs : s.WellFormed) {f g : FrameId} (hf : f < s.nextId)
    (h : s.Reaches f g) : g < s.nextId := by
  induction h with
  | self => exact hf
  | outer _ ho ih => exact Nat.lt_trans (hs.outer_lt ho) ih
  | captured _ he hc _ => exact hs.scope_lt he hc

/-- What is found from a region satisfies what its values satisfy. -/
theorem Sealed.lookup (h : s.Sealed G P) (hu : P .undefined) {f : FrameId} (hf : G f) (k : Key) :
    P (s.lookup f k) := by
  have hchain : ∀ g ∈ s.chain f, G g := forall_mem_chain (fun g o hg ho => h.outer hg ho.1) hf
  exact lookup_of_forall_mem_chain hu (fun g hg b hb => h.value (hchain g hg) hb) k

theorem Sealed.imp {Q : Value → Prop} (h : s.Sealed G P) (hPQ : ∀ v, P v → Q v) : s.Sealed G Q :=
  ⟨h.outer, fun hf he => hPQ _ (h.value hf he)⟩

theorem Sealed.union {G' : FrameId → Prop} (h : s.Sealed G P) (h' : s.Sealed G' P) :
    s.Sealed (fun f => G f ∨ G' f) P where
  outer hf ho := hf.imp (h.outer · ho) (h'.outer · ho)
  value hf he := hf.elim (h.value · he) (h'.value · he)

/-- What can be reached from a frame without host procedures holds closures made in frames that can
be reached. -/
theorem HostFree.sealed {f : FrameId} (h : s.HostFree f) :
    s.Sealed (s.Reaches f) (Value.Each (Value.Within (s.Reaches f))) where
  outer hg ho := hg.outer ho
  value {g e} hg he u hu := by
    cases u with
    | procedure p =>
      cases p with
      | builtin => trivial
      | host p => exact h g hg e he p hu
    | closure => exact hg.captured he hu
    | _ => trivial

/-- What is bound in a frame is bound in one of those that were made. -/
theorem exists_mem_frames {f : FrameId} {e : Key × Value} (he : e ∈ (s.frame f).bindings) :
    ∃ fr ∈ s.frames.toList, e ∈ fr.bindings := by
  rw [frame] at he
  cases hf : s.frames[f]? with
  | none =>
    rw [hf] at he
    cases he
  | some fr =>
    rw [hf] at he
    exact ⟨fr, Array.mem_toList_iff.mpr (Array.mem_of_getElem? hf), he⟩

/-- Frames that were not made are empty, so they may count as parts of a region. -/
theorem Sealed.union_new (h : s.Sealed G P) : s.Sealed (fun f => G f ∨ s.nextId ≤ f) P := by
  refine h.union ?_
  constructor
  · intro f o hf ho
    rw [frame_of_le hf] at ho
    cases ho
  · intro f e hf he
    rw [frame_of_le hf] at he
    cases he

/-- A new frame inside the region that binds such values keeps the region sealed. -/
theorem Sealed.push (h : s.Sealed G P) {b : Bindings} {o : FrameId} (ho : G o)
    (hb : ∀ e ∈ b, P e.2) : (s.push b (some o)).Sealed G P := by
  constructor
  · intro f p hf hp
    rcases frame_push s b (some o) f with ⟨-, hfr⟩ | hfr <;> rw [hfr] at hp
    · cases hp
      exact ho
    · exact h.outer hf hp
  · intro f e hf he
    rcases frame_push s b (some o) f with ⟨-, hfr⟩ | hfr <;> rw [hfr] at he
    · exact hb e he
    · exact h.value hf he

/-- A binding of such a value keeps the region sealed. -/
theorem Sealed.bind (h : s.Sealed G P) (f : FrameId) (n : String) {v : Value} (hv : P v) :
    (s.bind f n v).Sealed G P := by
  constructor
  · intro g o hg ho
    rw [outer_bind] at ho
    exact h.outer hg ho
  · intro g e hg he
    rcases bindings_bind s f n v g with hb | hb <;> rw [hb] at he
    · rcases Bindings.mem_set he with he | he
      · exact h.value hg he
      · exact he ▸ hv
    · exact h.value hg he

/-! ## Stores made frame by frame -/

/-- The store without frames is well formed. -/
theorem wellFormed_empty : empty.WellFormed := by
  constructor
  · intro f o ho
    simp [frame, empty] at ho
  · intro f e _ _ _ he
    simp [frame, empty] at he

/-- A well-formed store stays so when a frame is made inside one that is there and binds closures
that were made in frames that are there. -/
theorem WellFormed.push (h : s.WellFormed) {b : Bindings} {o : Option FrameId}
    (ho : ∀ g, o = some g → g < s.nextId)
    (hb : ∀ e ∈ b, ∀ formals body f, e.2.Holds (.closure formals body f) → f ≤ s.nextId) :
    (s.push b o).WellFormed := by
  constructor
  · intro f g hg
    rcases frame_push s b o f with ⟨rfl, hfr⟩ | hfr <;> rw [hfr] at hg
    · exact ho g hg
    · exact h.outer_lt hg
  · intro f e formals body g he hc
    rw [nextId_push]
    rcases frame_push s b o f with ⟨-, hfr⟩ | hfr <;> rw [hfr] at he
    · exact Nat.lt_succ_of_le (hb e he formals body g hc)
    · exact Nat.lt_succ_of_lt (h.scope_lt he hc)

/-- No host procedure can be reached if none is bound. -/
theorem hostFree_of_forall (h : ∀ fr ∈ s.frames.toList, ∀ e ∈ fr.bindings, ∀ p,
    ¬ e.2.Holds (.procedure (.host p))) (f : FrameId) : s.HostFree f := by
  intro g _ e he
  obtain ⟨fr, hfr, hefr⟩ := exists_mem_frames he
  exact h fr hfr e hefr

/-- The built-in procedures, in a frame inside it a number and a closure, and in one more frame
inside a keyword and a text. -/
def nested : Store :=
  ((empty.push builtinBindings none).push
    [(.name "x", .number (.int 1)),
      (.name "f", .closure ["a"] (.list [.symbol "print", .symbol "a"]) 0)] (some 0)).push
    [(.name "if", .number (.int 0)), (.name "y", .str "other")] (some 1)

theorem nested_wellFormed : nested.WellFormed := by
  refine ((wellFormed_empty.push ?_ ?_).push ?_ ?_).push ?_ ?_ <;>
    simp [builtinBindings, nextId, push, empty]
  rintro _ _ _ - - rfl
  exact Nat.zero_le 1

theorem nested_hostFree (f : FrameId) : nested.HostFree f := by
  refine hostFree_of_forall ?_ f
  intro fr hfr e he p
  simp only [nested, builtinBindings, push, empty, Array.toList_push, List.nil_append,
    List.cons_append, List.mem_cons, List.not_mem_nil, or_false] at hfr
  rcases hfr with rfl | rfl | rfl <;>
    simp only [List.mem_cons, List.not_mem_nil, or_false] at he <;>
    rcases he with rfl | rfl | rfl <;> simp

end Store

end MiniLisp
