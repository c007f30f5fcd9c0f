import MiniLisp.Proofs.Inert
import MiniLisp.Proofs.Region

/-!
# Literals

An expression without symbols is a literal: it evaluates to the data that it spells, in every frame
and whatever is bound there, and does nothing else. Its lists are data because none of them begins
with something that can be applied, and a string is no keyword even if it is spelled like one. The
data is displayed in a list as the text of the literal, and neither text is there if an integer has
too many digits.

## Main definitions

* `Atom.IsLiteral`: a number or a string

## Main results

* `Expr.display?_toData`: the data that a literal spells is displayed as the literal is written, if
  it can be
* `evaluate_literal`: literals evaluate to their data, and nothing else takes place
-/

namespace MiniLisp

/-- The atom is a number or a string. -/
def Atom.IsLiteral : Atom → Prop
  | symbol _ => False
  | _ => True

section Atom

variable {a : Atom} (h : a.IsLiteral)
include h

/-- What is no symbol can neither be a keyword nor stand for something that can be applied. -/
theorem Atom.IsLiteral.inert (s : Store) (f : FrameId) : a.Inert s f := by
  cases a with
  | symbol n => exact h.elim
  | _ => trivial

theorem Atom.IsLiteral.valueIn_eq (s : Store) (f : FrameId) : a.valueIn s f = a.value := by
  cases a with
  | symbol n => exact h.elim
  | _ => rfl

theorem Atom.IsLiteral.display_value : a.value.display true = a.text := by
  cases a with
  | symbol n => exact h.elim
  | _ => rfl

end Atom

mutual

/-- There is nothing to look up in a literal. -/
theorem Expr.valueIn_eq_toData (s : Store) (f : FrameId) : ∀ {e : Expr},
    e.MadeOf Atom.IsLiteral → e.valueIn s f = e.toData
  | .atom _, h => h.valueIn_eq s f
  | .list _, h => congrArg Value.list (Expr.valuesIn_eq_toDataList s f h)

theorem Expr.valuesIn_eq_toDataList (s : Store) (f : FrameId) : ∀ {es : List Expr},
    Expr.AllMadeOf Atom.IsLiteral es → Expr.valuesIn s f es = Expr.toDataList es
  | [], _ => rfl
  | _ :: _, ⟨he, hes⟩ =>
    congrArg₂ List.cons (Expr.valueIn_eq_toData s f he) (Expr.valuesIn_eq_toDataList s f hes)

end

mutual

/-- The data that a literal spells is displayed in a list as the literal is written. -/
theorem Expr.display_toData : ∀ {e : Expr}, e.MadeOf Atom.IsLiteral →
    e.toData.display true = e.text
  | .atom _, h => h.display_value
  | .list _, h => congrArg listText (Expr.displayAll_toDataList h)

theorem Expr.displayAll_toDataList : ∀ {es : List Expr}, Expr.AllMadeOf Atom.IsLiteral es →
    Value.displayAll (Expr.toDataList es) = Expr.texts es
  | [], _ => rfl
  | _ :: _, ⟨he, hes⟩ =>
    congrArg₂ List.cons (Expr.display_toData he) (Expr.displayAll_toDataList hes)

end

/-- The data that a literal spells can be displayed if the literal can be written, and the texts
are the same. -/
theorem Expr.display?_toData {e : Expr} (he : e.MadeOf Atom.IsLiteral) :
    e.toData.display? true = e.text? := by
  rw [Value.display?, Expr.text?, Expr.isWritable_toData, Expr.display_toData he]

/-- A literal can be written if and only if none of its integers has too many digits. -/
theorem Expr.text?_isSome_iff {e : Expr} (he : e.MadeOf Atom.IsLiteral) :
    e.text?.isSome = true ↔ e.MadeOf Atom.Short := by
  rw [← he.isWritable_iff, Expr.text?]
  cases e.isWritable with
  | true => exact iff_of_true rfl rfl
  | false => exact iff_of_false nofun nofun

/-- **Literals stand for themselves.** An expression that is made of numbers, strings and lists
evaluates to the data that it spells, in every frame of every world: it does not fail, prints and
logs nothing and leaves all frames as they are. That data is displayed in a list as the expression
is written, and both texts are there if and only if no integer has too many digits. -/
theorem evaluate_literal {e : Expr} (he : e.MadeOf Atom.IsLiteral) (f : FrameId) (w : World) :
    Finishes e f w (.ok e.toData, w) ∧ e.toData.display? true = e.text? ∧
      (e.text?.isSome = true ↔ e.MadeOf Atom.Short) := by
  refine ⟨?_, Expr.display?_toData he, Expr.text?_isSome_iff he⟩
  have hfinishes := finishes_inert (f := f) (w := w) (he.imp fun _ ha => ha.inert w.store f)
  rwa [Expr.valueIn_eq_toData w.store f he] at hfinishes

/-- `("f" ("print" 1 ()) ("if" " \"(") -1e999)` -/
def Expr.spelledAlike : Expr :=
  .list [.atom (.str "f"), .list [.atom (.str "print"), .atom (.number (.int 1)), .list []],
    .list [.atom (.str "if"), .atom (.str " \"(")],
    .atom (.number (.double (.infinite true)))]

/-- The lists begin with strings that are spelled like a closure, a procedure and a keyword of the
frame, one of the strings could not be read, and the double is infinite. -/
theorem evaluate_literal_spelledAlike :
    Expr.spelledAlike.MadeOf Atom.IsLiteral ∧
      Finishes .spelledAlike 2 ⟨.nested, true, "", #[]⟩
        (.ok Expr.spelledAlike.toData, ⟨.nested, true, "", #[]⟩) ∧
      Expr.spelledAlike.toData.display? true = Expr.spelledAlike.text? ∧
      (Expr.spelledAlike.text?.isSome = true ↔ Expr.spelledAlike.MadeOf Atom.Short) := by
  have hliteral : Expr.spelledAlike.MadeOf Atom.IsLiteral :=
    ⟨trivial, ⟨trivial, trivial, trivial, trivial⟩, ⟨trivial, trivial, trivial⟩, trivial, trivial⟩
  exact ⟨hliteral, evaluate_literal hliteral 2 ⟨.nested, true, "", #[]⟩⟩

/-- An integer of too many digits is a literal. Neither can it be written, nor can the data that it
spells be displayed. -/
theorem evaluate_literal_oversized :
    (Expr.atom (.number .oversized)).MadeOf Atom.IsLiteral ∧
      ¬ ∃ s, (Expr.atom (.number .oversized)).toData.display? true = some s ∧
        (Expr.atom (.number .oversized)).text? = some s := by
  refine ⟨trivial, ?_⟩
  rintro ⟨s, -, htext⟩
  have hlong : (Expr.atom (.number .oversized)).isWritable = false := Number.isWritable_oversized
  rw [Expr.text?, hlong] at htext
  cases htext

end MiniLisp
