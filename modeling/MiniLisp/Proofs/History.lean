import Mathlib.Logic.Relation
import MiniLisp.Proofs.Region
import MiniLisp.Session.Basic

/-!
# What frames tell of their history

A host program makes frames and binds names in them, in any order: a frame may get new bindings
when there are others inside of it already, and some bindings are refused. What has been done to
each frame is told here by the operations alone, as the names that it was given, in order. What a
name stands for, and how the names of a frame are listed, depends on that and on nothing else.

## Main definitions

* `ScopeOp`, `ScopeOp.perform`, `performAll`: what can be done, and doing it
* `ScopeOp.outers`, `ScopeOp.given`: the frames that operations make, each with the one outside of
  it, and the names that they give
* `ScopeOp.Nearest ops n f g`: from `f` outwards, `g` is the first frame that was ever given `n`
* `Store.Follows s ops`: the store tells what the operations did

## Main results

* `Store.lookup_bind`: what a binding does to lookups
* `Store.Records.performAll`: a record is kept through any operations
* `performAll_follows`: after any operations the store follows them, no name is lost, and what a
  further binding does
-/

namespace MiniLisp

/-! ## Names in bindings -/

/-- The name that an entry gives a value to. -/
def Bindings.named : Key × Value → Option (String × Value)
  | (.name n, v) => some (n, v)
  | (.other _, _) => none

namespace Bindings

/-- The names that are bound, in order. -/
def names (b : Bindings) : List String := (b.filterMap named).map Prod.fst

variable {b : Bindings} {gs : List (String × Value)} {n : String} {v : Value}

@[simp] theorem names_nil : names [] = [] := rfl

@[simp] theorem names_cons_name (n : String) (v : Value) (b : Bindings) :
    names ((.name n, v) :: b) = n :: names b := rfl

@[simp] theorem names_cons_other (u v : Value) (b : Bindings) :
    names ((.other u, v) :: b) = names b := rfl

theorem names_set (b : Bindings) (n : String) (v : Value) :
    (b.set (.name n) v).names = if n ∈ b.names then b.names else b.names ++ [n] := by
  induction b with
  | nil => rfl
  | cons e b ih =>
    obtain ⟨k, w⟩ := e
    cases k with
    | name m =>
      by_cases hm : m = n
      · simp [set, hm]
      · simp only [set, Key.same_name, beq_iff_eq, hm, if_false, names_cons_name, ih, List.mem_cons,
          Ne.symm hm, false_or]
        split <;> rfl
    | other u => exact ih

/-- To bind what is no name leaves the names alone. -/
theorem names_set_other (b : Bindings) (u v : Value) : (b.set (.other u) v).names = b.names := by
  induction b with
  | nil => rfl
  | cons e b ih =>
    obtain ⟨k, w⟩ := e
    cases k with
    | name m => simpa [set, Key.same] using ih
    | other u' =>
      by_cases hu : u'.same u
      · simp [set, Key.same, hu]
      · simpa [set, Key.same, hu] using ih

/-- And it leaves their values alone. -/
theorem get?_set_other (b : Bindings) (u v : Value) (n : String) :
    (b.set (.other u) v).get? (.name n) = b.get? (.name n) := by
  induction b with
  | nil => rfl
  | cons e b ih =>
    obtain ⟨k, w⟩ := e
    cases k with
    | name m => simp [set, Key.same, get?, ih]
    | other u' =>
      by_cases hu : u'.same u
      · simp [set, Key.same, get?, hu]
      · simp [set, Key.same, get?, hu, ih]

/-- The bindings tell which names were given, in order, and what was given to each last. -/
structure Tells (b : Bindings) (gs : List (String × Value)) : Prop where
  names_eq : b.names = (gs.map Prod.fst).eraseDups
  get?_eq : ∀ n, b.get? (.name n) = gs.reverse.lookup n

theorem Tells.nil : Tells [] [] := ⟨rfl, fun _ => rfl⟩

theorem Tells.set (h : b.Tells gs) (n : String) (v : Value) :
    (b.set (.name n) v).Tells (gs ++ [(n, v)]) := by
  constructor
  · rw [names_set, h.names_eq, List.map_append, List.eraseDups_append]
    by_cases hn : n ∈ gs.map Prod.fst
    · simp [List.mem_eraseDups.mpr hn, List.removeAll, hn]
    · simp [mt List.mem_eraseDups.mp hn, List.removeAll, hn, List.eraseDups_cons]
  · intro m
    rw [List.reverse_append, List.reverse_singleton, List.singleton_append, List.lookup_cons]
    by_cases hm : m = n
    · rw [hm, get?_set_self, beq_self_eq_true]
    · rw [get?_set_of_ne b v hm, h.get?_eq, beq_eq_false_iff_ne.mpr hm]

theorem Tells.setAll (h : b.Tells gs) (entries : List (Key × Value)) :
    (b.setAll entries).Tells (gs ++ entries.filterMap named) := by
  induction entries generalizing b gs with
  | nil => rwa [List.filterMap_nil, List.append_nil]
  | cons e entries ih =>
    obtain ⟨k, v⟩ := e
    cases k with
    | name n =>
      have hrest := ih (h.set n v)
      rwa [List.append_assoc] at hrest
    | other u =>
      have hskip : (b.set (.other u) v).Tells gs :=
        ⟨(names_set_other b u v).trans h.names_eq, fun n =>
          (get?_set_other b u v n).trans (h.get?_eq n)⟩
      exact ih hskip

theorem bne_all_iff {l : List (String × Value)} :
    (∀ e ∈ l, (n != e.1) = true) ↔ n ∉ l.map Prod.fst := by
  simp only [bne_iff_ne, List.mem_map, not_exists, not_and]
  exact forall₂_congr fun e _ => ne_comm

theorem Tells.binds_iff (h : b.Tells gs) : b.binds (.name n) = true ↔ n ∈ gs.map Prod.fst := by
  rw [binds, Option.isSome_iff_ne_none, h.get?_eq, ne_eq, List.lookup_eq_none_iff, bne_all_iff,
    List.map_reverse, List.mem_reverse, Classical.not_not]

/-- The value of a name is the one that was given to it last. -/
theorem Tells.get?_last (h : b.Tells gs) (hn : n ∈ gs.map Prod.fst) :
    ∃ earlier v later, gs = earlier ++ (n, v) :: later ∧ n ∉ later.map Prod.fst ∧
      b.get? (.name n) = some v := by
  obtain ⟨v, hv⟩ := Option.isSome_iff_exists.mp (h.binds_iff.mpr hn)
  obtain ⟨l₁, l₂, hgs, hl⟩ := List.lookup_eq_some_iff.mp ((h.get?_eq n).symm.trans hv)
  refine ⟨l₂.reverse, v, l₁.reverse, ?_, ?_, hv⟩
  · rw [← List.reverse_reverse gs, hgs]
    simp
  · rw [List.map_reverse, List.mem_reverse]
    exact bne_all_iff.mp hl

end Bindings

/-! ## Lookups -/

namespace Store

variable {s : Store}

/-- The search for a key, one frame at a time. -/
theorem find?_eq (s : Store) (f : FrameId) (k : Key) :
    s.find? f k = if (s.frame f).bindings.binds k then some f else
      match (s.frame f).outer with
      | some g => if g < f then s.find? g k else none
      | none => none := by
  rw [find?, chain]
  cases hk : (s.frame f).bindings.binds k with
  | true => simp [hk]
  | false =>
    simp only [List.find?_cons, hk]
    cases (s.frame f).outer with
    | none => rfl
    | some g => by_cases hg : g < f <;> simp [hg, find?]

/-- A binding does not change the way outwards. -/
theorem chain_bind (s : Store) (e : FrameId) (n : String) (v : Value) (f : FrameId) :
    (s.bind e n v).chain f = s.chain f := by
  induction f using Nat.strongRecOn with
  | ind f ih =>
    rw [chain, chain, outer_bind]
    cases (s.frame f).outer with
    | none => rfl
    | some g =>
      by_cases hg : g < f
      · simp only [hg, if_true, ih g hg]
      · simp only [hg, if_false]

theorem get?_bind {e : FrameId} (he : e < s.nextId) (n : String) (v : Value) (f : FrameId)
    (m : String) :
    ((s.bind e n v).frame f).bindings.get? (.name m) =
      if f = e ∧ m = n then some v else (s.frame f).bindings.get? (.name m) := by
  by_cases hf : f = e
  · subst hf
    rw [frame_bind_self s n v he]
    by_cases hm : m = n
    · rw [hm, Bindings.get?_set_self, if_pos ⟨rfl, rfl⟩]
    · rw [Bindings.get?_set_of_ne _ v hm, if_neg fun h => hm h.2]
  · rw [frame_bind_of_ne s n v hf, if_neg fun h => hf h.1]

/-- A binding of a name changes what that name stands for, and only where the search for it then
ends at the frame of the binding. -/
theorem lookup_bind {e : FrameId} (he : e < s.nextId) (n : String) (v : Value) (f : FrameId)
    (m : String) :
    (s.bind e n v).lookup f (.name m) =
      if m = n ∧ (s.bind e n v).find? f (.name n) = some e then v else s.lookup f (.name m) := by
  rw [lookup_eq_findSome?, lookup_eq_findSome?, find?, chain_bind]
  by_cases hm : m = n
  · subst hm
    simp only [Bindings.binds, get?_bind he, and_true, true_and]
    induction s.chain f with
    | nil => simp
    | cons g l ih =>
      by_cases hg : g = e
      · simp [hg]
      · cases hv : (s.frame g).bindings.get? (.name m) with
        | some x => simp [hg, hv]
        | none => simpa [hg, hv] using ih
  · simp only [get?_bind he, hm, and_false, false_and, if_false]

end Store

/-! ## Operations -/

/-- What a host program can do to frames. Several keys are given values in the order in which they
are listed. -/
inductive ScopeOp where
  /-- Make a frame with nothing outside. -/
  | make (entries : List (Key × Value))
  /-- Make a frame inside the given one. -/
  | child (f : FrameId) (entries : List (Key × Value))
  /-- Bind a key in the given frame. -/
  | define (f : FrameId) (k : Key) (v : Value)
  /-- Bind keys in the given frame, up to the first that is no name. -/
  | update (f : FrameId) (entries : List (Key × Value))

namespace ScopeOp

/-- Performs an operation. -/
def perform : ScopeOp → Eval Unit
  | make entries => do
    let _ ← Eval.enter (.ofList entries) none
    pure ()
  | child f entries => do
    let _ ← Eval.enter (.ofList entries) (some f)
    pure ()
  | define f k v => Eval.define f k v
  | update f entries => Eval.defineAll f entries

/-- The frame that an operation is about, if that has to be there already. -/
def frame? : ScopeOp → Option FrameId
  | make _ => none
  | child f _ => some f
  | define f _ _ => some f
  | update f _ => some f

/-- The frame that an operation makes, by what is outside of it. -/
def outer? : ScopeOp → Option (Option FrameId)
  | make _ => some none
  | child f _ => some (some f)
  | define _ _ _ => none
  | update _ _ => none

/-- The operations are about frames that are there, when there are `n` frames to begin with. -/
def Fit : Nat → List ScopeOp → Prop
  | _, [] => True
  | n, o :: ops => (∀ f ∈ o.frame?, f < n) ∧ Fit (n + o.outer?.toList.length) ops

/-! ### What operations tell by themselves -/

/-- The frames that operations make, by what is outside of each. -/
def outers (ops : List ScopeOp) : List (Option FrameId) := ops.filterMap outer?

/-- The names that are given values, up to the first key that is no name. -/
def namedFirst : List (Key × Value) → List (String × Value)
  | (.name n, v) :: entries => (n, v) :: namedFirst entries
  | (.other _, _) :: _ => []
  | [] => []

/-- The names that an operation gives to the frame `f`, where the next frame to be made is `next`.
The keys of a new frame may be no names, but those that are names are given anyway. -/
def gives (next : FrameId) (f : FrameId) : ScopeOp → List (String × Value)
  | make entries => if f = next then entries.filterMap Bindings.named else []
  | child _ entries => if f = next then entries.filterMap Bindings.named else []
  | define e k v => if f = e then namedFirst [(k, v)] else []
  | update e entries => if f = e then namedFirst entries else []

/-- The names that operations give to the frame `f`, in order, where the next frame to be made is
`next`. -/
def givenFrom (next : FrameId) (f : FrameId) : List ScopeOp → List (String × Value)
  | [] => []
  | o :: ops => o.gives next f ++ givenFrom (next + o.outer?.toList.length) f ops

/-- The names that operations give to the frame `f`, in order, from the first frame on. -/
def given (ops : List ScopeOp) (f : FrameId) : List (String × Value) := givenFrom 0 f ops

/-- The frame outside of `f`. -/
def Outside (ops : List ScopeOp) (f g : FrameId) : Prop := (outers ops)[f]? = some (some g)

/-- The frame was given the name. -/
def Given (ops : List ScopeOp) (f : FrameId) (n : String) : Prop :=
  n ∈ (given ops f).map Prod.fst

instance (ops : List ScopeOp) (f : FrameId) (n : String) : Decidable (Given ops f n) :=
  inferInstanceAs (Decidable (n ∈ _))

/-- From `f` outwards, `g` is the first frame that was ever given the name. -/
inductive Nearest (ops : List ScopeOp) (n : String) : FrameId → FrameId → Prop
  | here {f : FrameId} : Given ops f n → Nearest ops n f f
  | outwards {f o g : FrameId} : ¬ Given ops f n → Outside ops f o → Nearest ops n o g →
    Nearest ops n f g

variable {ops : List ScopeOp} {n : String} {f g : FrameId}

theorem Nearest.given (h : Nearest ops n f g) : Given ops g n := by
  induction h with
  | here hn => exact hn
  | outwards _ _ _ ih => exact ih

theorem Nearest.outside (h : Nearest ops n f g) :
    Relation.ReflTransGen (Outside ops) f g := by
  induction h with
  | here => exact .refl
  | outwards _ ho _ ih => exact .head ho ih

/-- If any frame outwards was given the name, one of them is the nearest. -/
theorem exists_nearest (h : Relation.ReflTransGen (Outside ops) f g) (hg : Given ops g n) :
    ∃ g', Nearest ops n f g' := by
  induction h using Relation.ReflTransGen.head_induction_on with
  | refl => exact ⟨g, .here hg⟩
  | @head f o ho _ ih =>
    obtain ⟨g', hnear⟩ := ih
    by_cases hn : Given ops f n
    · exact ⟨f, .here hn⟩
    · exact ⟨g', .outwards hn ho hnear⟩

end ScopeOp

/-- The world after operations that were performed one after the other, whether they failed or
not. -/
def performAll : World → List ScopeOp → Option World
  | w, [] => some w
  | w, o :: ops => do
    let (_, w') ← o.perform w
    performAll w' ops

/-- The store tells what the operations did. -/
structure Store.Follows (s : Store) (ops : List ScopeOp) : Prop where
  find?_iff {f g : FrameId} {n : String} :
    s.find? f (.name n) = some g ↔ ScopeOp.Nearest ops n f g
  find?_eq_none_iff {f : FrameId} {n : String} : s.find? f (.name n) = none ↔
    ∀ g, Relation.ReflTransGen (ScopeOp.Outside ops) f g → ¬ ScopeOp.Given ops g n
  /-- A name stands for what it was given last, where it was given. -/
  lookup_last {f g : FrameId} {n : String} : ScopeOp.Nearest ops n f g →
    ∃ earlier v later, ScopeOp.given ops g = earlier ++ (n, v) :: later ∧
      n ∉ later.map Prod.fst ∧ s.lookup f (.name n) = v
  lookup_undefined {f : FrameId} {n : String} :
    (∀ g, Relation.ReflTransGen (ScopeOp.Outside ops) f g → ¬ ScopeOp.Given ops g n) →
      s.lookup f (.name n) = .undefined
  /-- The names of a frame are in the order in which they were first given. -/
  names (f : FrameId) :
    (s.frame f).bindings.names = ((ScopeOp.given ops f).map Prod.fst).eraseDups

/-! ## Records of frames -/

namespace Store

/-- The store has the given frames, which were given the given names. -/
structure Records (s : Store) (outers : List (Option FrameId))
    (given : FrameId → List (String × Value)) : Prop where
  size : s.nextId = outers.length
  outer {f o : FrameId} : (s.frame f).outer = some o ↔ outers[f]? = some (some o)
  inner {f o : FrameId} : outers[f]? = some (some o) → o < f
  bindings (f : FrameId) : (s.frame f).bindings.Tells (given f)
  unmade {f : FrameId} : outers.length ≤ f → given f = []

variable {s : Store} {outers : List (Option FrameId)} {given : FrameId → List (String × Value)}

theorem records_empty : empty.Records [] fun _ => [] where
  size := rfl
  outer := by simp [frame, empty]
  inner h := by simp at h
  bindings _ := by
    rw [frame, empty]
    exact .nil
  unmade _ := rfl

theorem Records.push (h : s.Records outers given) {o : Option FrameId}
    (ho : ∀ f ∈ o, f < outers.length) (entries : List (Key × Value)) :
    (s.push (.ofList entries) o).Records (outers ++ [o])
      (fun f => given f ++ if f = outers.length then entries.filterMap Bindings.named else []) where
  size := by rw [nextId_push, h.size, List.length_append, List.length_singleton]
  outer {f g} := by
    by_cases hf : f = s.nextId
    · rw [hf, frame_push_self, h.size, List.getElem?_concat_length, Option.some.injEq]
    · rw [frame_push_of_ne s _ o hf, h.outer]
      rw [h.size] at hf
      grind
  inner {f g} hg := by
    by_cases hf : f = outers.length
    · subst hf
      rw [List.getElem?_concat_length] at hg
      exact ho g (Option.some.inj hg)
    · exact h.inner (f := f) (by grind)
  bindings f := by
    by_cases hf : f = s.nextId
    · have hnew : given f = [] := h.unmade (Nat.le_of_eq (h.size ▸ hf.symm))
      rw [hnew, if_pos (hf.trans h.size), hf, frame_push_self]
      exact Bindings.Tells.nil.setAll entries
    · rw [frame_push_of_ne s _ o hf, if_neg (h.size ▸ hf), List.append_nil]
      exact h.bindings f
  unmade {f} hf := by
    rw [List.length_append, List.length_singleton] at hf
    rw [h.unmade (Nat.le_of_succ_le hf), if_neg (Nat.ne_of_gt hf)]
    rfl

theorem Records.bind (h : s.Records outers given) {e : FrameId} (he : e < outers.length)
    (n : String) (v : Value) :
    (s.bind e n v).Records outers (fun f => given f ++ if f = e then [(n, v)] else []) where
  size := by rw [nextId_bind, h.size]
  outer {f g} := by rw [outer_bind, h.outer]
  inner := h.inner
  bindings f := by
    by_cases hf : f = e
    · rw [if_pos hf, hf, frame_bind_self s n v (h.size ▸ he)]
      exact (h.bindings e).set n v
    · rw [if_neg hf, frame_bind_of_ne s n v hf, List.append_nil]
      exact h.bindings f
  unmade {f} hf := by
    rw [h.unmade hf, if_neg (Nat.ne_of_gt (Nat.lt_of_lt_of_le he hf))]
    rfl

/-- Keys that are bound in order leave a record, also if one of them is no name. -/
theorem Records.defineAll {w : World} (h : w.store.Records outers given) {e : FrameId}
    (he : e < outers.length) (entries : List (Key × Value)) :
    ∃ r w', Eval.defineAll e entries w = some (r, w') ∧ w'.store.Records outers
      (fun f => given f ++ if f = e then ScopeOp.namedFirst entries else []) := by
  induction entries generalizing w given with
  | nil =>
    refine ⟨_, w, rfl, ?_⟩
    simpa [ScopeOp.namedFirst] using h
  | cons entry entries ih =>
    obtain ⟨k, v⟩ := entry
    cases k with
    | name n =>
      obtain ⟨r, w', hrun, hrest⟩ :=
        ih (h.bind he n v) (w := { w with store := w.store.bind e n v })
      refine ⟨r, w', hrun, ?_⟩
      have hgiven : (fun f => given f ++
          if f = e then ScopeOp.namedFirst ((.name n, v) :: entries) else []) = fun f =>
          (given f ++ if f = e then [(n, v)] else []) ++
            if f = e then ScopeOp.namedFirst entries else [] := by
        funext f
        by_cases hf : f = e <;> simp [hf, ScopeOp.namedFirst]
      rwa [hgiven]
    | other u =>
      refine ⟨_, w, rfl, ?_⟩
      simpa [ScopeOp.namedFirst] using h

/-- An operation leaves a record, also if it fails. -/
theorem Records.perform {w : World} (h : w.store.Records outers given) {o : ScopeOp}
    (ho : ∀ f ∈ o.frame?, f < outers.length) :
    ∃ r w', o.perform w = some (r, w') ∧ w'.store.Records (outers ++ o.outer?.toList)
      (fun f => given f ++ o.gives outers.length f) := by
  cases o with
  | make entries => exact ⟨_, _, rfl, h.push (by simp) entries⟩
  | child f entries =>
    exact ⟨_, _, rfl, h.push (by simpa [ScopeOp.frame?] using ho) entries⟩
  | define f k v =>
    have hrun : Eval.define f k v = Eval.defineAll f [(k, v)] := (bind_pure _).symm
    rw [ScopeOp.perform, hrun, ScopeOp.outer?, Option.toList_none, List.append_nil]
    exact h.defineAll (ho f rfl) [(k, v)]
  | update f entries =>
    rw [ScopeOp.outer?, Option.toList_none, List.append_nil]
    exact h.defineAll (ho f rfl) entries

/-- Operations one after the other leave a record. -/
theorem Records.performAll {w : World} (h : w.store.Records outers given) {ops : List ScopeOp}
    (hfit : ScopeOp.Fit outers.length ops) :
    ∃ w', MiniLisp.performAll w ops = some w' ∧
      w'.store.Records (outers ++ ScopeOp.outers ops)
        (fun f => given f ++ ScopeOp.givenFrom outers.length f ops) := by
  induction ops generalizing w outers given with
  | nil =>
    refine ⟨w, rfl, ?_⟩
    simpa [ScopeOp.outers, ScopeOp.givenFrom] using h
  | cons o ops ih =>
    obtain ⟨ho, hfit⟩ := hfit
    obtain ⟨r, w₁, hrun, h₁⟩ := h.perform ho
    rw [← List.length_append] at hfit
    obtain ⟨w', hrest, h'⟩ := ih h₁ hfit
    refine ⟨w', ?_, ?_⟩
    · rw [MiniLisp.performAll, hrun]
      exact hrest
    · have houters : ScopeOp.outers (o :: ops) = o.outer?.toList ++ ScopeOp.outers ops := by
        rw [ScopeOp.outers, List.filterMap_cons, ScopeOp.outers]
        cases o.outer? <;> rfl
      simpa only [houters, ScopeOp.givenFrom, List.append_assoc, List.length_append] using h'

/-! ## What records tell -/

section

variable {ops : List ScopeOp} (h : s.Records (ScopeOp.outers ops) (ScopeOp.given ops))
include h

theorem Records.find?_iff {f g : FrameId} {n : String} :
    s.find? f (.name n) = some g ↔ ScopeOp.Nearest ops n f g := by
  -- the search goes outwards, to older frames
  induction f using Nat.strongRecOn with
  | ind f ih =>
    rw [find?_eq]
    by_cases hn : ScopeOp.Given ops f n
    · rw [if_pos ((h.bindings f).binds_iff.mpr hn)]
      constructor
      · rintro ⟨⟩
        exact .here hn
      · rintro (_ | ⟨hn', -, -⟩)
        · rfl
        · exact absurd hn hn'
    · rw [if_neg (mt (h.bindings f).binds_iff.mp hn)]
      cases ho : (s.frame f).outer with
      | none =>
        constructor
        · rintro ⟨⟩
        · rintro (hn' | ⟨-, ho', -⟩)
          · exact absurd hn' hn
          · rw [h.outer.mpr ho'] at ho
            cases ho
      | some o =>
        have ho' : ScopeOp.Outside ops f o := h.outer.mp ho
        have hlt : o < f := h.inner ho'
        simp only [hlt, if_true, ih o hlt]
        constructor
        · exact .outwards hn ho'
        · rintro (hn' | ⟨-, ho₂, hnear⟩)
          · exact absurd hn' hn
          · obtain rfl := Option.some.inj (Option.some.inj (ho'.symm.trans ho₂))
            exact hnear

theorem Records.find?_eq_none_iff {f : FrameId} {n : String} : s.find? f (.name n) = none ↔
    ∀ g, Relation.ReflTransGen (ScopeOp.Outside ops) f g → ¬ ScopeOp.Given ops g n := by
  constructor
  · intro hnone g hout hg
    obtain ⟨g', hnear⟩ := ScopeOp.exists_nearest hout hg
    rw [h.find?_iff.mpr hnear] at hnone
    cases hnone
  · intro hout
    cases hfind : s.find? f (.name n) with
    | none => rfl
    | some g =>
      have hnear := h.find?_iff.mp hfind
      exact absurd hnear.given (hout g hnear.outside)

theorem Records.follows : s.Follows ops where
  find?_iff := h.find?_iff
  find?_eq_none_iff := h.find?_eq_none_iff
  lookup_last {f g n} hnear := by
    obtain ⟨earlier, v, later, heq, hlater, hv⟩ := (h.bindings g).get?_last hnear.given
    refine ⟨earlier, v, later, heq, hlater, ?_⟩
    rw [lookup, h.find?_iff.mpr hnear]
    simp only [hv, Option.getD_some]
  lookup_undefined hout := by rw [lookup, h.find?_eq_none_iff.mpr hout]
  names f := (h.bindings f).names_eq

end

end Store

/-! ## Histories of any length -/

namespace ScopeOp

theorem Fit.left {k : Nat} {ops₁ ops₂ : List ScopeOp} (h : Fit k (ops₁ ++ ops₂)) :
    Fit k ops₁ := by
  induction ops₁ generalizing k with
  | nil => trivial
  | cons o ops₁ ih => exact ⟨h.1, ih h.2⟩

theorem givenFrom_append (k : Nat) (f : FrameId) (ops₁ ops₂ : List ScopeOp) :
    ∃ later, givenFrom k f (ops₁ ++ ops₂) = givenFrom k f ops₁ ++ later := by
  induction ops₁ generalizing k with
  | nil => exact ⟨_, rfl⟩
  | cons o ops₁ ih =>
    obtain ⟨later, hlater⟩ := ih (k + o.outer?.toList.length)
    exact ⟨later, by rw [List.cons_append, givenFrom, hlater, givenFrom, List.append_assoc]⟩

/-- What was given on the way comes first. -/
theorem given_append (f : FrameId) (ops₁ ops₂ : List ScopeOp) :
    ∃ later, given (ops₁ ++ ops₂) f = given ops₁ f ++ later :=
  givenFrom_append 0 f ops₁ ops₂

end ScopeOp

/-- Names that are bound one after the other, and then a key that is no name: what is bound before
stays bound. -/
theorem Eval.defineAll_refused (f : FrameId) (entries : List (String × Value)) (u v : Value)
    (rest : List (Key × Value)) (w : World) :
    ∃ w', Eval.defineAll f (entries.map fun e => (.name e.1, e.2)) w = some (.ok (), w') ∧
      Eval.defineAll f ((entries.map fun e => (.name e.1, e.2)) ++ (.other u, v) :: rest) w =
        some (.error (Error.notName u).raised, w') := by
  induction entries generalizing w with
  | nil => exact ⟨w, rfl, rfl⟩
  | cons e entries ih => exact ih (w.bind f e.1 e.2)

/-- **Frames tell their history.** Any operations on frames can be performed, each about frames that
are there, and some of them may fail. After them the search for a name ends at the nearest frame
outwards that was ever given it, and the name stands for what it was given there last, even if that
is the undefined value; the names of each frame are in the order in which they were first given. All
the names that a frame had on the way are still there.

A further binding of a name changes what that name stands for and nothing else, and only in the
frames from where the search for it then ends at the binding. A binding of what is no name is
refused and changes nothing, and of several bindings those before the first that is refused take
place. -/
theorem performAll_follows (echo : Bool) (ops : List ScopeOp) (h : ScopeOp.Fit 0 ops) :
    ∃ w, performAll (.fresh echo) ops = some w ∧ w.store.Follows ops ∧
      (∀ ops₁ ops₂, ops = ops₁ ++ ops₂ → ∃ w₁, performAll (.fresh echo) ops₁ = some w₁ ∧
        ∀ f, (w₁.store.frame f).bindings.names <+: (w.store.frame f).bindings.names) ∧
      (∀ e < w.store.nextId, ∀ n v, ∃ w', Eval.define e (.name n) v w = some (.ok (), w') ∧
        ∀ f m, w'.store.lookup f (.name m) ≠ w.store.lookup f (.name m) →
          m = n ∧ w'.store.find? f (.name n) = some e) ∧
      (∀ e u v, Eval.define e (.other u) v w = some (.error (Error.notName u).raised, w)) ∧
      ∀ e (entries : List (String × Value)) u v rest, ∃ w',
        Eval.defineAll e (entries.map fun e => (.name e.1, e.2)) w = some (.ok (), w') ∧
        Eval.defineAll e ((entries.map fun e => (.name e.1, e.2)) ++ (.other u, v) :: rest) w =
          some (.error (Error.notName u).raised, w') := by
  have hrecords : ∀ {ops}, ScopeOp.Fit 0 ops → ∃ w, performAll (.fresh echo) ops = some w ∧
      w.store.Records (ScopeOp.outers ops) (ScopeOp.given ops) := fun hfit =>
    Store.records_empty.performAll (w := .fresh echo) hfit
  obtain ⟨w, hrun, hw⟩ := hrecords h
  refine ⟨w, hrun, hw.follows, ?_, ?_, fun _ _ _ => rfl, fun e entries u v rest =>
    Eval.defineAll_refused e entries u v rest w⟩
  · rintro ops₁ ops₂ rfl
    obtain ⟨w₁, hrun₁, hw₁⟩ := hrecords h.left
    refine ⟨w₁, hrun₁, fun f => ?_⟩
    obtain ⟨later, hlater⟩ := ScopeOp.given_append f ops₁ ops₂
    rw [(hw.bindings f).names_eq, (hw₁.bindings f).names_eq, hlater, List.map_append,
      List.eraseDups_append]
    exact List.prefix_append _ _
  · intro e he n v
    refine ⟨_, rfl, fun f m hne => ?_⟩
    rw [World.bind, Store.lookup_bind he] at hne
    exact Classical.byContradiction fun hnot => hne (if_neg hnot)

/-- A frame inside another one, which gets a further name later; the inner one hides a name with the
undefined value, and twice it is told to bind what is no name. -/
def shadowed : List ScopeOp :=
  [.make [(.name "x", .number (.int 1)), (.name "y", .number (.int 2))],
    .child 0 [(.name "x", .undefined), (.other (.number (.int 7)), .str "seven")],
    .define 0 (.name "z") (.str "new"),
    .define 1 (.other .undefined) (.str "refused"),
    .update 1 [(.name "y", .number (.int 3)), (.other (.number (.int 0)), .undefined),
      (.name "z", .undefined)]]

/-- The name that is bound to the undefined value is found where it is, and the one that comes
after the refused key is found outside. -/
theorem performAll_follows_shadowed : ScopeOp.Fit 0 shadowed ∧
    ∃ w, performAll (.fresh true) shadowed = some w ∧ w.store.Follows shadowed ∧
      w.store.find? 1 (.name "x") = some 1 ∧ w.store.find? 1 (.name "z") = some 0 ∧
      (w.store.frame 1).bindings.names = ["x", "y"] := by
  have hfit : ScopeOp.Fit 0 shadowed := by
    simp [shadowed, ScopeOp.Fit, ScopeOp.frame?, ScopeOp.outer?]
  obtain ⟨w, hrun, hw, -⟩ := performAll_follows true shadowed hfit
  refine ⟨hfit, w, hrun, hw, hw.find?_iff.mpr (.here (by decide)), ?_, (hw.names 1).trans rfl⟩
  exact hw.find?_iff.mpr (.outwards (by decide) rfl (.here (by decide)))

end MiniLisp
