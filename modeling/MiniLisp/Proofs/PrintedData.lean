import MiniLisp.Proofs.Inert
import MiniLisp.Proofs.ReadAgain

/-!
# Printed data

Data that is displayed as it stands in a list is program text, and this text evaluates to the data:
lists come back as lists, whatever they begin with, and the undefined value by its name, as long as
that name is not bound to something else.

## Main definitions

* `Value.Printable`: data that comes back from its text
* `Value.source`: the expression that spells the data

## Main results

* `Value.Printable.text_source`: data is displayed as the text of its expression
* `interpret_display`: what data is displayed as evaluates to the data
-/

namespace MiniLisp

mutual

/-- The value comes back from its text: it is a number that is not too long or a finite double, a
string without double quotes, the undefined value, or a list of such values. -/
def Value.Printable : Value → Prop
  | .number n => n.Readable
  | .str s => '"' ∉ s.toList
  | .list vs => Value.AllPrintable vs
  | .undefined => True
  | .closure _ _ _ => False
  | .procedure _ => False

/-- Each of the values comes back from its text. -/
def Value.AllPrintable : List Value → Prop
  | [] => True
  | v :: vs => v.Printable ∧ Value.AllPrintable vs

end

mutual

/-- The expression that spells the value. A procedure is spelled by none, and stands for itself. -/
def Value.source : Value → Expr
  | .number n => .atom (.number n)
  | .str s => .atom (.str s)
  | .list vs => .list (Value.sources vs)
  | .undefined => .symbol "undefined"
  | v => .embedded v

/-- The expressions that spell the values. -/
def Value.sources : List Value → List Expr
  | [] => []
  | v :: vs => v.source :: Value.sources vs

end

mutual

theorem Value.Printable.readable_source : ∀ {v : Value}, v.Printable → v.source.Readable
  | .number _, h => h
  | .str _, h => h
  | .undefined, _ => by
    have hchars : "undefined".toList.all isWordChar = true := by decide
    exact ⟨by decide, List.all_eq_true.mp hchars, rfl⟩
  | .list _, h => Value.AllPrintable.readable_sources h

theorem Value.AllPrintable.readable_sources : ∀ {vs : List Value}, Value.AllPrintable vs →
    Expr.ReadableAll (Value.sources vs)
  | [], _ => trivial
  | _ :: _, ⟨hv, hvs⟩ => ⟨hv.readable_source, Value.AllPrintable.readable_sources hvs⟩

end

mutual

/-- Data that comes back from its text has a text. -/
theorem Value.Printable.isWritable : ∀ {v : Value}, v.Printable → v.isWritable = true
  | .number _, h => Number.Readable.isWritable h
  | .str _, _ => rfl
  | .undefined, _ => rfl
  | .list _, h => Value.AllPrintable.allWritable h

theorem Value.AllPrintable.allWritable : ∀ {vs : List Value}, Value.AllPrintable vs →
    Value.allWritable vs = true
  | [], _ => rfl
  | _ :: _, ⟨hv, hvs⟩ =>
    Bool.and_eq_true_iff.mpr ⟨hv.isWritable, Value.AllPrintable.allWritable hvs⟩

end

mutual

/-- Data is displayed as the text of the expression that spells it. -/
theorem Value.Printable.text_source : ∀ {v : Value}, v.Printable → v.source.text = v.display true
  | .number _, _ => rfl
  | .str _, _ => rfl
  | .undefined, _ => rfl
  | .list _, h => congrArg listText (Value.AllPrintable.texts_sources h)

theorem Value.AllPrintable.texts_sources : ∀ {vs : List Value}, Value.AllPrintable vs →
    Expr.texts (Value.sources vs) = Value.displayAll vs
  | [], _ => rfl
  | _ :: _, ⟨hv, hvs⟩ =>
    congrArg₂ List.cons hv.text_source (Value.AllPrintable.texts_sources hvs)

end

mutual

/-- Where the name of the undefined value has its meaning, nothing in the expression that spells
data can be applied. -/
theorem Value.Printable.inert_source {s : Store} {f : FrameId}
    (hf : s.lookup f (.name "undefined") = .undefined) : ∀ {v : Value}, v.Printable →
    v.source.MadeOf (Atom.Inert s f)
  | .number _, _ => trivial
  | .str _, _ => trivial
  | .undefined, _ => ⟨rfl, congrArg Value.isApplicable hf⟩
  | .list _, h => Value.AllPrintable.inert_sources hf h

theorem Value.AllPrintable.inert_sources {s : Store} {f : FrameId}
    (hf : s.lookup f (.name "undefined") = .undefined) : ∀ {vs : List Value},
    Value.AllPrintable vs → Expr.AllMadeOf (Atom.Inert s f) (Value.sources vs)
  | [], _ => trivial
  | _ :: _, ⟨hv, hvs⟩ => ⟨hv.inert_source hf, Value.AllPrintable.inert_sources hf hvs⟩

end

mutual

/-- Where the name of the undefined value has its meaning, the expression that spells data stands
for the data. -/
theorem Value.Printable.valueIn_source {s : Store} {f : FrameId}
    (hf : s.lookup f (.name "undefined") = .undefined) : ∀ {v : Value}, v.Printable →
    v.source.valueIn s f = v
  | .number _, _ => rfl
  | .str _, _ => rfl
  | .undefined, _ => hf
  | .list _, h => congrArg Value.list (Value.AllPrintable.valuesIn_sources hf h)

theorem Value.AllPrintable.valuesIn_sources {s : Store} {f : FrameId}
    (hf : s.lookup f (.name "undefined") = .undefined) : ∀ {vs : List Value},
    Value.AllPrintable vs → Expr.valuesIn s f (Value.sources vs) = vs
  | [], _ => rfl
  | _ :: _, ⟨hv, hvs⟩ =>
    congrArg₂ List.cons (hv.valueIn_source hf) (Value.AllPrintable.valuesIn_sources hf hvs)

end

/-- **Printed data evaluates to itself.** Data can be displayed, and what it is displayed as inside
a list is read and evaluates to the data, in every frame in which the name of the undefined value
has its meaning, whatever else is bound there. Nothing is printed and no frame changes; only the
reading is logged. -/
theorem interpret_display {v : Value} (hv : v.Printable) {f : FrameId} {w : World}
    (hf : w.store.lookup f (.name "undefined") = .undefined) :
    v.display? true = some (v.display true) ∧
      ∃ n, ∀ m, n ≤ m → interpret m (v.display true) f w =
        some (.ok v, { w with events := w.events.push (.parsed v.source) }) := by
  have hparse : parse (v.display true) = .ok v.source := by
    rw [← hv.text_source]
    exact hv.readable_source.parse_text
  let w' : World := { w with events := w.events.push (.parsed v.source) }
  have hfinishes : Finishes v.source f w' (.ok (v.source.valueIn w'.store f), w') :=
    finishes_inert (hv.inert_source hf)
  rw [hv.valueIn_source hf] at hfinishes
  obtain ⟨n, hn⟩ := hfinishes
  refine ⟨Value.display?_of_isWritable hv.isWritable true, n, fun m hm => ?_⟩
  have hread : Eval.parse (v.display true) w = some (.ok v.source, w') := by
    simp only [Eval.parse, hparse]
    rfl
  rw [interpret, Eval.bind_apply, hread]
  exact evaluate_mono hm _ f w' _ hn

/-- `("let" ("print" undefined 0.5) () -7)` -/
def Value.keywordData : Value :=
  .list [.str "let", .list [.str "print", .undefined,
    .number (.double (.finite false ⟨1022 <<< 52, by decide⟩))], .list [], .number (.int (-7))]

/-- A world in which the names that the strings of the data spell are bound to procedures. -/
def World.shadowing : World :=
  ⟨⟨#[⟨[(.name "print", .procedure (.builtin .print)), (.name "let", .procedure (.host .readEval))],
    none⟩]⟩, true, "", #[]⟩

/-- Lists that begin with strings spelled like a keyword and a procedure come back as lists. -/
theorem interpret_display_keywordData :
    (Value.keywordData.Printable ∧
        World.shadowing.store.lookup 0 (.name "undefined") = .undefined) ∧
      Value.keywordData.display? true = some (Value.keywordData.display true) ∧
      ∃ n, ∀ m, n ≤ m → interpret m (Value.keywordData.display true) 0 .shadowing =
        some (.ok .keywordData, { World.shadowing with
          events := World.shadowing.events.push (.parsed Value.keywordData.source) }) := by
  have hv : Value.keywordData.Printable := by
    refine ⟨?_, ⟨?_, trivial, rfl, trivial⟩, trivial, ?_, trivial⟩
    · show '"' ∉ "let".toList
      decide
    · show '"' ∉ "print".toList
      decide
    · show digitCount 7 ≤ maxIntegerDigits
      decide
  have hf : World.shadowing.store.lookup 0 (.name "undefined") = .undefined := by cbv
  exact ⟨⟨hv, hf⟩, interpret_display hv hf⟩

end MiniLisp
