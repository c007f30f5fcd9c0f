import Mathlib.Data.List.Forall2
import MiniLisp.Proofs.Region

/-!
# Values that match

Two runs of the same program, or of two programs that mean the same, do not come to the same
values: their closures refer to different frames, and may have different bodies. So values are
compared by a relation that is given for closures and goes through lists.

## Main definitions

* `Closure`: a procedure written in the language
* `Value.Matches P K v v'`: the values are equal, but for closures related by `K`, and procedures
  that are not written in the language satisfy `P`
* `EntriesMatch V es es'`: the same keys in the same order, with values related by `V`
* `Names`: a correspondence of names, and `Names.bindAll`, what binders make of it

## Main results

* `Value.Matches.of_each`: a value matches itself if all that it holds does
* `Value.Matches.eq`: values that match are equal if closures match only if they are
* `Value.Matches.display_eq`, `Value.Matches.inspect_eq`: matching values have the same texts if
  closures that are related do
* `Value.Matches.isWritable_eq`: they can be written together if the bodies of such closures can
* `EntriesMatch.ofNames`, `EntriesMatch.get?`: bindings that match, made and looked up
* `Names.matches_setAll`: corresponding names that are bound to matching values
-/

namespace MiniLisp

/-- A procedure written in the language. -/
structure Closure where
  formals : List String
  body : Expr
  scope : FrameId

/-- The program text of a closure. -/
def Closure.text (c : Closure) : String := closureText c.formals c.body.text

namespace Value

/-! ## Values -/

section

variable (P : Procedure → Prop) (K : Closure → Closure → Prop)

mutual

/-- The values are equal, but for closures related by `K`, and procedures that are not written in
the language satisfy `P`. -/
def Matches : Value → Value → Prop
  | number n, number n' => n = n'
  | str s, str s' => s = s'
  | list vs, list vs' => MatchesAll vs vs'
  | undefined, undefined => True
  | closure formals body scope, closure formals' body' scope' =>
    K ⟨formals, body, scope⟩ ⟨formals', body', scope'⟩
  | procedure p, procedure p' => p = p' ∧ P p
  | _, _ => False

/-- The values match one by one. -/
def MatchesAll : List Value → List Value → Prop
  | [], [] => True
  | v :: vs, v' :: vs' => Matches v v' ∧ MatchesAll vs vs'
  | _, _ => False

end

end

variable {P : Procedure → Prop} {K K' : Closure → Closure → Prop}

theorem matchesAll_iff {vs vs' : List Value} :
    MatchesAll P K vs vs' ↔ List.Forall₂ (Matches P K) vs vs' := by
  induction vs generalizing vs' with
  | nil => cases vs' <;> simp [MatchesAll]
  | cons v vs ih => cases vs' <;> simp [MatchesAll, ih]

@[simp] theorem matches_list {vs vs' : List Value} :
    Matches P K (list vs) (list vs') ↔ List.Forall₂ (Matches P K) vs vs' := by
  rw [Matches, matchesAll_iff]

@[simp] theorem matches_closure {formals formals' : List String} {body body' : Expr}
    {scope scope' : FrameId} :
    Matches P K (closure formals body scope) (closure formals' body' scope') ↔
      K ⟨formals, body, scope⟩ ⟨formals', body', scope'⟩ := by
  rw [Matches]

@[simp] theorem matches_procedure {p p' : Procedure} :
    Matches P K (procedure p) (procedure p') ↔ p = p' ∧ P p := by
  rw [Matches]

mutual

theorem Matches.mono (hK : ∀ c c', K c c' → K' c c') :
    ∀ {v v' : Value}, Matches P K v v' → Matches P K' v v'
  | number _, number _, h => h
  | str _, str _, h => h
  | list _, list _, h => MatchesAll.mono hK h
  | undefined, undefined, h => h
  | closure _ _ _, closure _ _ _, h => hK _ _ h
  | procedure _, procedure _, h => h

theorem MatchesAll.mono (hK : ∀ c c', K c c' → K' c c') :
    ∀ {vs vs' : List Value}, MatchesAll P K vs vs' → MatchesAll P K' vs vs'
  | [], [], h => h
  | _ :: _, _ :: _, h => ⟨Matches.mono hK h.1, MatchesAll.mono hK h.2⟩

end

/-- What a value has to be to match itself, if it is no list. -/
def SelfMatching (P : Procedure → Prop) (K : Closure → Closure → Prop) : Value → Prop
  | closure formals body scope => K ⟨formals, body, scope⟩ ⟨formals, body, scope⟩
  | procedure p => P p
  | _ => True

mutual

/-- A value matches itself if all that it holds does. -/
theorem Matches.of_each : ∀ {v : Value}, Each (SelfMatching P K) v → Matches P K v v
  | number _, _ => rfl
  | str _, _ => rfl
  | list _, h => MatchesAll.of_each ((each_list fun _ => trivial).mp h)
  | undefined, _ => trivial
  | closure _ _ _, h => h.self
  | procedure _, h => ⟨rfl, h.self⟩

theorem MatchesAll.of_each :
    ∀ {vs : List Value}, (∀ v ∈ vs, Each (SelfMatching P K) v) → MatchesAll P K vs vs
  | [], _ => trivial
  | _ :: _, h =>
    ⟨Matches.of_each (h _ List.mem_cons_self),
      MatchesAll.of_each fun v hv => h v (List.mem_cons_of_mem _ hv)⟩

end

/-- A value that holds no host procedures matches itself if its closures do. -/
theorem Matches.of_within {G : FrameId → Prop} {v : Value} (h : Each (Within G) v)
    (hK : ∀ c, G c.scope → K c c) : Matches Procedure.IsBuiltin K v v := by
  refine Matches.of_each (h.imp fun u hu => ?_)
  unfold SelfMatching
  split
  · exact hK ⟨_, _, _⟩ hu
  · exact hu
  · trivial

/-- Values that match are lists together. -/
theorem Matches.list_or {v v' : Value} (h : Matches P K v v') :
    (∃ vs vs', v = list vs ∧ v' = list vs' ∧ List.Forall₂ (Matches P K) vs vs') ∨
      (∀ vs, v ≠ list vs) ∧ ∀ vs, v' ≠ list vs := by
  cases v with
  | list vs =>
    cases v' with
    | list vs' => exact .inl ⟨vs, vs', rfl, rfl, matches_list.mp h⟩
    | _ => exact h.elim
  | _ =>
    cases v' with
    | list vs' => exact h.elim
    | _ => exact .inr ⟨fun _ => nofun, fun _ => nofun⟩

mutual

/-- Values that match are equal if closures match only if they are. -/
theorem Matches.eq (hK : ∀ c c', K c c' → c = c') : ∀ {v v' : Value}, Matches P K v v' → v = v'
  | number _, number _, h => congrArg number h
  | str _, str _, h => congrArg str h
  | list _, list _, h => congrArg list (MatchesAll.eq hK h)
  | undefined, undefined, _ => rfl
  | closure _ _ _, closure _ _ _, h => by
    cases hK _ _ (matches_closure.mp h)
    rfl
  | procedure _, procedure _, h => congrArg procedure (matches_procedure.mp h).1

theorem MatchesAll.eq (hK : ∀ c c', K c c' → c = c') :
    ∀ {vs vs' : List Value}, MatchesAll P K vs vs' → vs = vs'
  | [], [], _ => rfl
  | _ :: _, _ :: _, h => by rw [Matches.eq hK h.1, MatchesAll.eq hK h.2]

end

theorem Matches.isApplicable_eq {v v' : Value} (h : Matches P K v v') :
    v'.isApplicable = v.isApplicable := by
  cases v <;> cases v' <;> first | rfl | exact h.elim

theorem Matches.isTrue_eq {v v' : Value} (h : Matches P K v v') : v'.isTrue = v.isTrue := by
  cases v <;> cases v' <;> first | exact h.elim | rfl | exact congrArg _ (congrArg _ h.symm)

mutual

/-- Values that match can be written together if the bodies of closures that are related can. -/
theorem Matches.isWritable_eq (hK : ∀ c c', K c c' → c.body.isWritable = c'.body.isWritable) :
    ∀ {v v' : Value}, Matches P K v v' → v.isWritable = v'.isWritable
  | number _, number _, h => congrArg Number.isWritable h
  | str _, str _, _ => rfl
  | list _, list _, h => MatchesAll.allWritable_eq hK h
  | undefined, undefined, _ => rfl
  | closure _ _ _, closure _ _ _, h => hK _ _ (matches_closure.mp h)
  | procedure _, procedure _, _ => rfl

theorem MatchesAll.allWritable_eq
    (hK : ∀ c c', K c c' → c.body.isWritable = c'.body.isWritable) :
    ∀ {vs vs' : List Value}, MatchesAll P K vs vs' → allWritable vs = allWritable vs'
  | [], [], _ => rfl
  | _ :: _, _ :: _, h => congrArg₂ and (Matches.isWritable_eq hK h.1) (h.2.allWritable_eq hK)

end

mutual

theorem Matches.inspect_eq (hK : ∀ c c', K c c' → c.text = c'.text) :
    ∀ {v v' : Value}, Matches P K v v' → v.inspect = v'.inspect
  | number _, number _, h => by rw [show _ = _ from h]
  | str _, str _, h => by rw [show _ = _ from h]
  | list _, list _, h => by rw [inspect, inspect, MatchesAll.inspectAll_eq hK h]
  | undefined, undefined, _ => rfl
  | closure _ _ _, closure _ _ _, h => by
    rw [inspect, inspect]
    exact hK ⟨_, _, _⟩ ⟨_, _, _⟩ (matches_closure.mp h)
  | procedure _, procedure _, h => by rw [(matches_procedure.mp h).1]

theorem MatchesAll.inspectAll_eq (hK : ∀ c c', K c c' → c.text = c'.text) :
    ∀ {vs vs' : List Value}, MatchesAll P K vs vs' → inspectAll vs = inspectAll vs'
  | [], [], _ => rfl
  | _ :: _, _ :: _, h => by
    rw [inspectAll, inspectAll, Matches.inspect_eq hK h.1, MatchesAll.inspectAll_eq hK h.2]

end

mutual

theorem Matches.display_eq (hK : ∀ c c', K c c' → c.text = c'.text) (nested : Bool) :
    ∀ {v v' : Value}, Matches P K v v' → v.display nested = v'.display nested
  | number _, number _, h => by rw [show _ = _ from h]
  | str _, str _, h => by rw [show _ = _ from h]
  | list _, list _, h => by rw [display, display, MatchesAll.displayAll_eq hK h]
  | undefined, undefined, _ => rfl
  | closure _ _ _, closure _ _ _, h => by
    rw [display, display]
    exact hK ⟨_, _, _⟩ ⟨_, _, _⟩ (matches_closure.mp h)
  | procedure _, procedure _, h => by rw [(matches_procedure.mp h).1]

theorem MatchesAll.displayAll_eq (hK : ∀ c c', K c c' → c.text = c'.text) :
    ∀ {vs vs' : List Value}, MatchesAll P K vs vs' → displayAll vs = displayAll vs'
  | [], [], _ => rfl
  | _ :: _, _ :: _, h => by
    rw [displayAll, displayAll, Matches.display_eq hK true h.1, MatchesAll.displayAll_eq hK h.2]

end

end Value

/-! ## Bindings -/

/-- The same keys in the same order, with values related by `V`. -/
def EntriesMatch {ι : Type} (V : Value → Value → Prop) (es es' : List (ι × Value)) : Prop :=
  List.Forall₂ (fun e e' => e.1 = e'.1 ∧ V e.2 e'.2) es es'

namespace EntriesMatch

variable {V V' : Value → Value → Prop}

theorem mono {ι : Type} {es es' : List (ι × Value)} (hV : ∀ v v', V v v' → V' v v')
    (h : EntriesMatch V es es') : EntriesMatch V' es es' :=
  h.imp fun _ _ he => ⟨he.1, hV _ _ he.2⟩

theorem map_fst {ι : Type} {es es' : List (ι × Value)} (h : EntriesMatch V es es') :
    es.map Prod.fst = es'.map Prod.fst := by
  rw [← List.forall₂_eq_eq_eq, List.forall₂_map_left_iff, List.forall₂_map_right_iff]
  exact h.imp fun _ _ he => he.1

theorem map_snd {ι : Type} {es es' : List (ι × Value)} (h : EntriesMatch V es es') :
    List.Forall₂ V (es.map Prod.snd) (es'.map Prod.snd) := by
  rw [List.forall₂_map_left_iff, List.forall₂_map_right_iff]
  exact h.imp fun _ _ he => he.2

/-- The same names with values that match one by one. -/
theorem zip (names : List String) {vs vs' : List Value} (h : List.Forall₂ V vs vs') :
    EntriesMatch V (names.zip vs) (names.zip vs') := by
  induction h generalizing names with
  | nil => simp [EntriesMatch]
  | cons hv _ ih =>
    cases names with
    | nil => exact .nil
    | cons n names => exact .cons ⟨rfl, hv⟩ (ih names)

variable {b b' : Bindings}

theorem get? (h : EntriesMatch V b b') (k : Key) :
    Option.Rel V (Bindings.get? b k) (Bindings.get? b' k) := by
  induction h with
  | nil => exact .none
  | @cons e e' b b' he _ ih =>
    obtain ⟨k₁, v⟩ := e
    obtain ⟨k₂, v'⟩ := e'
    obtain ⟨rfl, hv⟩ : k₁ = k₂ ∧ V v v' := he
    simp only [Bindings.get?]
    split
    · exact .some hv
    · exact ih

theorem set (h : EntriesMatch V b b') (k : Key) {v v' : Value} (hv : V v v') :
    EntriesMatch V (Bindings.set b k v) (Bindings.set b' k v') := by
  induction h with
  | nil => exact .cons ⟨rfl, hv⟩ .nil
  | @cons e e' b b' he hb ih =>
    obtain ⟨k₁, u⟩ := e
    obtain ⟨k₂, u'⟩ := e'
    obtain ⟨rfl, hu⟩ : k₁ = k₂ ∧ V u u' := he
    simp only [Bindings.set]
    split
    · exact .cons ⟨rfl, hv⟩ hb
    · exact .cons ⟨rfl, hu⟩ ih

theorem setAll {es es' : List (Key × Value)} (h : EntriesMatch V b b')
    (he : EntriesMatch V es es') :
    EntriesMatch V (Bindings.setAll b es) (Bindings.setAll b' es') := by
  induction he generalizing b b' with
  | nil => exact h
  | @cons e e' es es' he _ ih =>
    obtain ⟨k, v⟩ := e
    obtain ⟨k', v'⟩ := e'
    obtain ⟨rfl, hv⟩ : k = k' ∧ V v v' := he
    exact ih (h.set k hv)

theorem ofNames {es es' : List (String × Value)} (h : EntriesMatch V es es') :
    EntriesMatch V (Bindings.ofNames es) (Bindings.ofNames es') := by
  refine setAll .nil ?_
  rw [EntriesMatch, List.forall₂_map_left_iff, List.forall₂_map_right_iff]
  exact h.imp fun _ _ he => ⟨congrArg Key.name he.1, he.2⟩

end EntriesMatch

/-! ## Correspondences of names -/

/-- Which name of a first program corresponds to which name of a second one. -/
abbrev Names := String → String → Prop

namespace Names

/-- The correspondence where `n` is bound in the first program and `n'` in the second: the two
correspond to each other and to no other names. -/
def bind (R : Names) (n n' : String) : Names := fun x y => x = n ∧ y = n' ∨ x ≠ n ∧ y ≠ n' ∧ R x y

/-- The correspondence where names are bound in order, one by one. -/
def bindAll (R : Names) : List String → List String → Names
  | n :: ns, n' :: ns' => (R.bind n n').bindAll ns ns'
  | _, _ => R

variable {R : Names} {x y : String}

/-- Names that are not bound anew correspond as before. -/
theorem bindAll_of_notMem {ns ns' : List String} (hx : x ∉ ns) (hy : y ∉ ns') (h : R x y) :
    R.bindAll ns ns' x y := by
  induction ns generalizing ns' R with
  | nil => exact h
  | cons n ns ih =>
    cases ns' with
    | nil => exact h
    | cons n' ns' =>
      obtain ⟨hxn, hx⟩ := not_or.mp (mt List.mem_cons.mpr hx)
      obtain ⟨hyn, hy⟩ := not_or.mp (mt List.mem_cons.mpr hy)
      exact ih hx hy (.inr ⟨hxn, hyn, h⟩)

/-- A name corresponds to its new name where names are bound that are renamed, if it is told from
them by its new name. -/
theorem bindAll_map {ns : List String} (g : String → String) (hg : ∀ n ∈ ns, g n = g x → n = x)
    (h : R x (g x) ∨ x ∈ ns) : R.bindAll ns (ns.map g) x (g x) := by
  induction ns generalizing R with
  | nil => exact h.resolve_right nofun
  | cons n ns ih =>
    refine ih (fun m hm => hg m (List.mem_cons_of_mem _ hm)) ?_
    by_cases hn : x = n
    · exact .inl (.inl ⟨hn, congrArg g hn⟩)
    · refine h.imp (fun hR => .inr ⟨hn, fun hgn => hn ?_, hR⟩) fun hx => ?_
      · exact (hg n List.mem_cons_self hgn.symm).symm
      · exact (List.mem_cons.mp hx).resolve_left hn

/-- A name that is bound in both programs at the same places corresponds to itself. -/
theorem bindAll_self {ns : List String} (h : R x x ∨ x ∈ ns) : R.bindAll ns ns x x := by
  simpa using bindAll_map id (fun _ _ => id) h

/-- Where corresponding names have matching values, they still do when names are bound one by one
to matching values. -/
theorem matches_setAll {V : Value → Value → Prop} {look look' : String → Value}
    {es es' : List (String × Value)} (he : List.Forall₂ V (es.map Prod.snd) (es'.map Prod.snd))
    {b b' : Bindings} {R : Names}
    (h : ∀ x y, R x y →
      V ((b.get? (.name x)).getD (look x)) ((b'.get? (.name y)).getD (look' y))) {x y : String}
    (hxy : R.bindAll (es.map Prod.fst) (es'.map Prod.fst) x y) :
    V (((b.setAll (es.map fun e => (.name e.1, e.2))).get? (.name x)).getD (look x))
      (((b'.setAll (es'.map fun e => (.name e.1, e.2))).get? (.name y)).getD (look' y)) := by
  induction es generalizing es' b b' R with
  | nil =>
    cases es' with
    | nil => exact h x y hxy
    | cons => cases he
  | cons e es ih =>
    cases es' with
    | nil => cases he
    | cons e' es' =>
      obtain ⟨n, v⟩ := e
      obtain ⟨n', v'⟩ := e'
      obtain ⟨hv, he⟩ := List.forall₂_cons.mp he
      refine ih he (fun x y hR => ?_) hxy
      rcases hR with ⟨rfl, rfl⟩ | ⟨hx, hy, hR⟩
      · simpa [Bindings.get?_set_self] using hv
      · simpa [Bindings.get?_set_of_ne _ _ hx, Bindings.get?_set_of_ne _ _ hy] using h x y hR

end Names

end MiniLisp
