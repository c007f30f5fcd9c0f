import Mathlib.Data.Nat.Digits.Defs
import MiniLisp.Proofs.WholeText

/-!
# Texts read, written and read again

What the reader makes of a text can be written and read again. The atoms come back as they were,
with one exception: a literal too large for the doubles is read as an infinity, whose text is the
word `inf`, which is no number but a symbol.

## Main definitions

* `Atom.IsInfinite`: the atom is an infinite double
* `Expr.reread`: the expression with a symbol in the place of each infinite double
* `Atom.IsRead`: a token of a text spells the atom

## Main results

* `Atom.IsRead.readable_reread`: an atom that was read can be read again, but for infinities
* `parse_text_iff_of_parse`: what is read is the same again if and only if no double in it is
  infinite
-/

namespace MiniLisp

/-- The atom is an infinite double. -/
def Atom.IsInfinite : Atom → Prop
  | number (.double (.infinite _)) => True
  | _ => False

/-- What the text of an atom that was read stands for: for an infinite double the symbol of that
text, and otherwise the atom. -/
def Atom.reread : Atom → Atom
  | number (.double (.infinite negative)) => symbol (Double.infinite negative).text
  | a => a

mutual

/-- The expression with a symbol in the place of each infinite double. -/
def Expr.reread : Expr → Expr
  | .atom a => .atom a.reread
  | .list es => .list (Expr.rereadAll es)
  | .embedded v => .embedded v

/-- The expressions with a symbol in the place of each infinite double. -/
def Expr.rereadAll : List Expr → List Expr
  | [] => []
  | e :: es => e.reread :: Expr.rereadAll es

end

/-! ## Numbers that were read -/

/-- Digits stand for less than a power of ten. -/
theorem ofDigits_lt {digits : List Nat} (h : ∀ d ∈ digits, d < 10) :
    ofDigits digits < 10 ^ digits.length := by
  have hfold : ∀ {digits : List Nat}, (∀ d ∈ digits, d < 10) → ∀ n,
      digits.foldl (fun n d => 10 * n + d) n < (n + 1) * 10 ^ digits.length := by
    intro digits h
    induction digits with
    | nil => intro n; simp
    | cons d ds ih =>
      intro n
      obtain ⟨hd, hds⟩ := List.forall_mem_cons.mp h
      calc ds.foldl (fun n d => 10 * n + d) (10 * n + d)
          < (10 * n + d + 1) * 10 ^ ds.length := ih hds _
        _ ≤ ((n + 1) * 10) * 10 ^ ds.length := Nat.mul_le_mul_right _ (by omega)
        _ = (n + 1) * 10 ^ (ds.length + 1) := by rw [Nat.pow_succ', Nat.mul_assoc]
  simpa [ofDigits] using hfold h 0

theorem Numeral.whole_lt {w : List Char} {n : Numeral} (h : read? w = some n) :
    ∀ d ∈ n.whole, d < 10 := by
  obtain ⟨-, hm, -⟩ := read?_eq_some_iff.mp h
  cases hm with
  | whole _ hs => exact hs.lt
  | point _ hs _ => exact hs.lt
  | fraction _ _ => exact nofun

/-- An integer of no more digits than are taken is written with no more digits. -/
theorem Numeral.digitCount_toInt_le {w : List Char} {n : Numeral} (h : read? w = some n)
    (hlength : n.whole.length ≤ maxIntegerDigits) :
    digitCount n.toInt.natAbs ≤ maxIntegerDigits := by
  have hnatAbs : n.toInt.natAbs = ofDigits n.whole := by
    unfold toInt signed
    split <;> simp
  refine Nat.toDigits_length 10 _ _ (by decide) ?_
  rw [hnatAbs]
  exact (ofDigits_lt (whole_lt h)).trans_le (Nat.pow_le_pow_right (by decide) hlength)

theorem Double.ofRank_ne_nan (negative : Bool) (r : Nat) : ofRank negative r ≠ .nan := by
  unfold ofRank
  split <;> exact nofun

theorem Decimal.toDouble_ne_nan (negative : Bool) (d : Decimal) : d.toDouble negative ≠ .nan := by
  unfold toDouble
  split
  · exact Double.ofRank_ne_nan _ _
  split
  · exact nofun
  split <;> exact Double.ofRank_ne_nan _ _

/-! ## Atoms that were read -/

/-- A token that can stand in a text spells the atom. -/
def Atom.IsRead (a : Atom) : Prop := ∃ t : Token, t.IsLexeme ∧ Spelling [t] (.atom a)

theorem Spelling.atom_cases {t : Token} {a : Atom} (h : Spelling [t] (.atom a)) :
    t.kind = .word ∧ Atom.ofWord t.value = .ok a ∨ t.kind = .str ∧ a = .str t.value := by
  generalize hts : [t] = ts at h
  cases h with
  | word hkind hword =>
    cases hts
    exact .inl ⟨hkind, hword⟩
  | str hkind =>
    cases hts
    exact .inr ⟨hkind, rfl⟩

/-- The text of an infinite double is a word that stands for a symbol. -/
theorem readable_symbol_infinite (negative : Bool) :
    (Atom.symbol (Double.infinite negative).text).Readable := by
  have hchars : ∀ negative : Bool,
      (Double.infinite negative).text.toList.all isWordChar = true := by decide
  refine ⟨?_, List.all_eq_true.mp (hchars negative), ?_⟩
  · cases negative <;> decide
  · cases negative <;> rfl

namespace Atom.IsRead

variable {a : Atom}

/-- An atom that was read can be written and read again as it is, but for infinities. -/
theorem readable_reread (h : a.IsRead) : a.reread.Readable := by
  obtain ⟨t, ht, hspell⟩ := h
  rcases hspell.atom_cases with ⟨hkind, hword⟩ | ⟨hkind, rfl⟩
  · simp only [Token.IsLexeme, hkind] at ht
    have hofWord := hword
    unfold Atom.ofWord at hword
    split at hword
    · cases hword
      exact ⟨ht.1, ht.2, hofWord⟩
    · next n hn =>
      split at hword
      · split at hword
        · cases hword
        · next hlong =>
          cases hword
          exact Numeral.digitCount_toInt_le hn (Nat.le_of_not_lt hlong)
      · cases hword
        cases hd : n.toDouble with
        | finite negative r => exact rfl
        | infinite negative => exact readable_symbol_infinite negative
        | nan => exact absurd hd (Decimal.toDouble_ne_nan _ _)
  · simp only [Token.IsLexeme, hkind] at ht
    exact ht

/-- An integer that was read has no more digits than are taken. -/
theorem short (h : a.IsRead) : a.Short := by
  have hreadable := h.readable_reread
  cases a with
  | number n =>
    cases n with
    | int i => exact hreadable
    | double d => trivial
  | str s => trivial
  | symbol s => trivial

end Atom.IsRead

theorem Atom.text_reread (a : Atom) : a.reread.text = a.text := by
  unfold reread
  split <;> rfl

theorem Atom.reread_eq_iff (a : Atom) : a.reread = a ↔ ¬ a.IsInfinite := by
  unfold reread IsInfinite
  split <;> simp

/-! ## Expressions that were read -/

mutual

/-- An expression that was read can be written and read again as it is, but for infinities. -/
theorem Expr.readable_reread : ∀ {e : Expr}, e.MadeOf Atom.IsRead → e.reread.Readable
  | .atom _, h => h.readable_reread
  | .list _, h => Expr.readableAll_reread h

theorem Expr.readableAll_reread : ∀ {es : List Expr}, Expr.AllMadeOf Atom.IsRead es →
    Expr.ReadableAll (Expr.rereadAll es)
  | [], _ => trivial
  | _ :: _, ⟨he, hes⟩ => ⟨Expr.readable_reread he, Expr.readableAll_reread hes⟩

end

mutual

/-- The text does not tell an infinity from the symbol. -/
theorem Expr.text_reread : ∀ e : Expr, e.reread.text = e.text
  | .atom a => a.text_reread
  | .list es => congrArg listText (Expr.texts_reread es)
  | .embedded _ => rfl

theorem Expr.texts_reread : ∀ es : List Expr, Expr.texts (Expr.rereadAll es) = Expr.texts es
  | [] => rfl
  | e :: es => congrArg₂ List.cons (Expr.text_reread e) (Expr.texts_reread es)

end

mutual

theorem Expr.reread_eq_iff {P : Atom → Prop} : ∀ {e : Expr}, e.MadeOf P →
    (e.reread = e ↔ e.MadeOf fun a => ¬ a.IsInfinite)
  | .atom a, _ => by
    rw [Expr.reread, Expr.atom.injEq]
    exact a.reread_eq_iff
  | .list es, h => by
    rw [Expr.reread, Expr.list.injEq]
    exact Expr.rereadAll_eq_iff h

theorem Expr.rereadAll_eq_iff {P : Atom → Prop} : ∀ {es : List Expr}, Expr.AllMadeOf P es →
    (Expr.rereadAll es = es ↔ Expr.AllMadeOf (fun a => ¬ a.IsInfinite) es)
  | [], _ => iff_of_true rfl trivial
  | e :: es, ⟨he, hes⟩ => by
    rw [Expr.rereadAll, List.cons.injEq, Expr.reread_eq_iff he, Expr.rereadAll_eq_iff hes]
    rfl

end

/-- What is read off a text is made of atoms that the tokens of a text spell. -/
theorem madeOf_isRead_of_parse {s : String} {e : Expr} (h : parse s = .ok e) :
    e.MadeOf Atom.IsRead := by
  obtain ⟨p, r, hp, hspell⟩ := exists_spelling_of_parse h
  have hlexemes := (lexing_drain s.toList 0).isLexeme
  rw [show (Source.text s.toList 0).drain.1 = p ++ r from hp] at hlexemes
  exact hspell.madeOf fun t ht a ha => ⟨t, hlexemes t (List.mem_append_left r ht), ha⟩

/-- A readable expression is read off its text. -/
theorem Expr.Readable.parse_text {e : Expr} (h : e.Readable) : parse e.text = .ok e := by
  obtain ⟨pos', hread⟩ := Stream.readExpr_text h (show EndsWord [] from nofun) 0
  rw [List.append_nil] at hread
  have hfirst : (Stream.ofText e.text).readExpr.1 = .ok (some e) := congrArg Prod.fst hread
  rw [parse, hfirst]

/-- **What is read can be written and read again**, and it is the same again if and only if no
double in it is infinite. An infinite double comes back as a symbol, for its text is not a number
word. -/
theorem parse_text_iff_of_parse {s : String} {e : Expr} (h : parse s = .ok e) :
    e.text? = some e.text ∧ parse e.text = .ok e.reread ∧
      (parse e.text = .ok e ↔ e.MadeOf fun a => ¬ a.IsInfinite) := by
  have hread := madeOf_isRead_of_parse h
  have hshort : e.MadeOf Atom.Short := hread.imp fun _ => Atom.IsRead.short
  have hparse : parse e.text = .ok e.reread := by
    rw [← Expr.text_reread e]
    exact (Expr.readable_reread hread).parse_text
  refine ⟨Expr.text?_of_isWritable hshort.isWritable, hparse, ?_⟩
  rw [hparse, Except.ok.injEq]
  exact Expr.reread_eq_iff hread

/-- A literal greater than the largest double is read as an infinity, which is written as a symbol:
what was read is not what is read again. -/
theorem parse_text_overflow : ∃ e, parse "1e999" = .ok e ∧ parse e.text ≠ .ok e := by
  have hdrain : (Source.ofText "1e999").drain = ([⟨.word, "1e999", 0⟩], none) :=
    Source.drain_token rfl <| Source.drain_finished rfl
  have hdrain' : (Source.ofText "inf").drain = ([⟨.word, "inf", 0⟩], none) :=
    Source.drain_token rfl <| Source.drain_finished rfl
  have hsymbol : parse "inf" = .ok (.symbol "inf") := parse_eq_of_drain hdrain'
  refine ⟨.atom (.number (.double (.infinite false))), parse_eq_of_drain hdrain, ?_⟩
  show parse "inf" ≠ _
  rw [hsymbol]
  simp

/-- `(-1e999 7 "a b" (x -0.0))` -/
def Expr.overflown : Expr :=
  .list [.atom (.number (.double (.infinite true))), .atom (.number (.int 7)), .atom (.str "a b"),
    .list [.symbol "x", .atom (.number (.double (.finite true ⟨0, by decide⟩)))]]

/-- The infinity is a symbol when it is read again, and the rest is as it was, though it was not
spelled so. -/
theorem parse_text_overflown :
    parse "(-1e999 +007 \"a b\"(x -.0))" = .ok .overflown ∧
      Expr.overflown.text? = some Expr.overflown.text ∧
      parse Expr.overflown.text = .ok Expr.overflown.reread ∧
      (parse Expr.overflown.text = .ok .overflown ↔
        Expr.overflown.MadeOf fun a => ¬ a.IsInfinite) := by
  have hdrain : (Source.ofText "(-1e999 +007 \"a b\"(x -.0))").drain =
      ([⟨.opening, "(", 0⟩, ⟨.word, "-1e999", 1⟩, ⟨.word, "+007", 8⟩, ⟨.str, "a b", 13⟩,
        ⟨.opening, "(", 18⟩, ⟨.word, "x", 19⟩, ⟨.word, "-.0", 21⟩, ⟨.closing, ")", 24⟩,
        ⟨.closing, ")", 25⟩], none) :=
    Source.drain_token rfl <| Source.drain_token rfl <| Source.drain_token rfl <|
      Source.drain_token rfl <| Source.drain_token rfl <| Source.drain_token rfl <|
      Source.drain_token rfl <| Source.drain_token rfl <| Source.drain_token rfl <|
      Source.drain_finished rfl
  have hparse : parse "(-1e999 +007 \"a b\"(x -.0))" = .ok .overflown := parse_eq_of_drain hdrain
  exact ⟨hparse, parse_text_iff_of_parse hparse⟩

end MiniLisp
