import Mathlib.Data.Nat.Digits.Defs
import MiniLisp.Proofs.NumberWords
import MiniLisp.Proofs.WrittenNumbers

/-!
# The kinds of words

Which words stand for integers, which for doubles, which for symbols, and which are refused, told
by their form alone: a number word of a sign and digits is an integer, unless there are too many
digits; any other number word is a double; and a word that is no number word is the symbol of that
name.

## Main definitions

* `IntegerWord negative ds w`: the word is a sign and digits

## Main results

* `ofDigits_eq`: digits stand for the number that they spell to base ten
* `Atom.ofWord_cases`: the three kinds of words
* `Atom.ofWord_iff`: what each word stands for, and which words are refused
-/

namespace MiniLisp

/-- An optional sign and one or more digits. -/
inductive IntegerWord : Bool → List Nat → List Char → Prop
  | mk {negative : Bool} {ds : List Nat} {sign s : List Char} :
      SignWord negative sign → ds ≠ [] → DigitsWord ds s → IntegerWord negative ds (sign ++ s)

section

variable {negative : Bool} {ds : List Nat} {w : List Char} {n : Numeral}

/-- Integer words are the number words without a point and without a power of ten. -/
theorem integerWord_iff : IntegerWord negative ds w ↔ NumberWord ⟨negative, ds, none, none⟩ w := by
  constructor
  · rintro ⟨hsign, hne, hs⟩
    have hword := NumberWord.mk hsign (.whole hne hs) .absent
    rwa [List.append_nil] at hword
  · rintro @⟨_, _, _, _, sign, m, p, hsign, hm, hp⟩
    cases hm with
    | whole hne hs =>
      cases hp
      rw [List.append_nil]
      exact .mk hsign hne hs

/-- A word has the parts of one numeral only. -/
theorem NumberWord.unique {n' : Numeral} (h : NumberWord n w) (h' : NumberWord n' w) : n = n' :=
  Option.some.inj
    ((Numeral.read?_eq_some_iff.mpr h).symm.trans (Numeral.read?_eq_some_iff.mpr h'))

/-- A number word is an integer word if its parts are those of an integer. -/
theorem NumberWord.isInteger_iff (h : NumberWord n w) :
    n.isInteger = true ↔ ∃ negative ds, IntegerWord negative ds w := by
  constructor
  · intro hint
    obtain ⟨negative, whole, fraction, power⟩ := n
    simp only [Numeral.isInteger, Bool.and_eq_true, Option.isNone_iff_eq_none] at hint
    obtain ⟨rfl, rfl⟩ := hint
    exact ⟨negative, whole, integerWord_iff.mpr h⟩
  · rintro ⟨negative, ds, hw⟩
    rw [h.unique (integerWord_iff.mp hw)]
    rfl

end

/-- Digits stand for the number that they spell to base ten, the last of them for the units. -/
theorem ofDigits_eq (ds : List Nat) : ofDigits ds = Nat.ofDigits 10 ds.reverse := by
  rw [ofDigits, Nat.ofDigits_eq_foldr, List.foldr_reverse]
  congr 1
  funext n d
  exact Nat.add_comm _ _

/-- A word of digits stands for the value of the digits, times the sign. -/
theorem Numeral.toInt_eq (negative : Bool) (ds : List Nat) :
    toInt ⟨negative, ds, none, none⟩ =
      (if negative then -1 else 1) * (Nat.ofDigits 10 ds.reverse : Nat) := by
  rw [toInt, ofDigits_eq]
  cases negative <;> simp [signed]

/-- A word is no number word and a symbol; or an integer word, which is refused if it is too long;
or another number word and a double. -/
theorem Atom.ofWord_cases (w : String) :
    ((¬ ∃ n, NumberWord n w.toList) ∧ Atom.ofWord w = .ok (.symbol w)) ∨
      (∃ negative ds, IntegerWord negative ds w.toList ∧
        Atom.ofWord w = if 4300 < ds.length then .error .oversizedInteger
          else .ok (.number (.int (Numeral.toInt ⟨negative, ds, none, none⟩)))) ∨
      ∃ n, NumberWord n w.toList ∧ (¬ ∃ negative ds, IntegerWord negative ds w.toList) ∧
        Atom.ofWord w = .ok (.number (.double n.toDouble)) := by
  cases hread : Numeral.read? w.toList with
  | none =>
    refine .inl ⟨?_, by simp only [ofWord, hread]⟩
    rintro ⟨n, hn⟩
    cases hread.symm.trans (Numeral.read?_eq_some_iff.mpr hn)
  | some n =>
    have hn := Numeral.read?_eq_some_iff.mp hread
    by_cases hint : n.isInteger = true
    · obtain ⟨negative, ds, hw⟩ := hn.isInteger_iff.mp hint
      obtain rfl := hn.unique (integerWord_iff.mp hw)
      refine .inr (.inl ⟨negative, ds, hw, ?_⟩)
      simp only [ofWord, hread, hint, if_true, maxIntegerDigits]
      rfl
    · refine .inr (.inr ⟨n, hn, fun h => hint (hn.isInteger_iff.mpr h), ?_⟩)
      simp only [ofWord, hread, hint]
      rfl

/-- **Words stand for what their form says.** A word stands for an integer if and only if it is an
optional sign and at most 4300 digits, one or more, and then for the number that the digits spell
to base ten with that sign; it is refused if and only if it has that form and more digits; it stands
for a double if and only if it is any other number word; and a word that is no number word stands
for the symbol of that name. The text of an integer of at most 4300 digits stands for the
integer. -/
theorem Atom.ofWord_iff (w : String) :
    (∀ i, Atom.ofWord w = .ok (.number (.int i)) ↔
      ∃ negative ds, IntegerWord negative ds w.toList ∧ ds.length ≤ 4300 ∧
        i = (if negative then -1 else 1) * (Nat.ofDigits 10 ds.reverse : Nat)) ∧
    (∀ x, Atom.ofWord w = .error x ↔ x = .oversizedInteger ∧
      ∃ negative ds, IntegerWord negative ds w.toList ∧ 4300 < ds.length) ∧
    ((∃ d, Atom.ofWord w = .ok (.number (.double d))) ↔
      (∃ n, NumberWord n w.toList) ∧ ¬ ∃ negative ds, IntegerWord negative ds w.toList) ∧
    (Atom.ofWord w = .ok (.symbol w) ↔ ¬ ∃ n, NumberWord n w.toList) ∧
    ∀ i : Int, digitCount i.natAbs ≤ 4300 → Atom.ofWord (intText i) = .ok (.number (.int i)) := by
  have htext : ∀ i : Int, digitCount i.natAbs ≤ 4300 →
      Atom.ofWord (intText i) = .ok (.number (.int i)) :=
    fun i hi => (Number.exists_parts (n := .int i) hi).choose_spec.2
  rcases Atom.ofWord_cases w with ⟨hnot, hw⟩ | ⟨negative, ds, hint, hw⟩ | ⟨n, hn, hnot, hw⟩
  · have hnoint : ∀ negative ds, ¬ IntegerWord negative ds w.toList :=
      fun negative ds h => hnot ⟨_, integerWord_iff.mp h⟩
    refine ⟨fun i => ?_, fun x => ?_, ?_, ?_, htext⟩ <;> simp [hw, hnot, hnoint]
  · have hnumber : ∃ n, NumberWord n w.toList := ⟨_, integerWord_iff.mp hint⟩
    have hparts : ∀ negative' ds', IntegerWord negative' ds' w.toList ↔
        negative' = negative ∧ ds' = ds := by
      intro negative' ds'
      constructor
      · intro h
        simpa using (integerWord_iff.mp h).unique (integerWord_iff.mp hint)
      · rintro ⟨rfl, rfl⟩
        exact hint
    by_cases hlong : 4300 < ds.length
    · rw [if_pos hlong] at hw
      refine ⟨fun i => ?_, fun x => ?_, ?_, ?_, htext⟩ <;> simp [hw, hparts, hlong, hnumber]
      exact eq_comm
    · rw [if_neg hlong, Numeral.toInt_eq] at hw
      refine ⟨fun i => ?_, fun x => ?_, ?_, ?_, htext⟩
      · simp only [hw, hparts]
        constructor
        · rintro ⟨⟩
          exact ⟨negative, ds, ⟨rfl, rfl⟩, Nat.le_of_not_lt hlong, rfl⟩
        · rintro ⟨_, _, ⟨rfl, rfl⟩, -, rfl⟩
          rfl
      all_goals simp [hw, hparts, hlong, hnumber]
  · have hnumber : ∃ n, NumberWord n w.toList := ⟨n, hn⟩
    have hnoint : ∀ negative ds, ¬ IntegerWord negative ds w.toList :=
      fun negative ds h => hnot ⟨negative, ds, h⟩
    refine ⟨fun i => ?_, fun x => ?_, ?_, ?_, htext⟩ <;> simp [hw, hnumber, hnoint]

/-- Digits of three scripts and a zero in front of them: an integer, whose text has plain digits. -/
theorem Atom.ofWord_mixedScripts :
    IntegerWord true [0, 3, 4, 7] "-0\u06634\u096D".toList ∧ digitCount 347 ≤ 4300 ∧
      Atom.ofWord "-0\u06634\u096D" = .ok (.number (.int (-347))) ∧
      Atom.ofWord (intText (-347)) = .ok (.number (.int (-347))) := by
  have hdigit : ∀ {c d}, digitValue? c = some d → IsDigitOf c d := digitValue?_eq_some_iff.mp
  have hdigits : DigitsWord [0, 3, 4, 7] ['0', '\u0663', '4', '\u096D'] :=
    .cons (hdigit (by decide)) <| .cons (hdigit (by decide)) <| .cons (hdigit (by decide)) <|
      .cons (hdigit (by decide)) .nil
  have hword : IntegerWord true [0, 3, 4, 7] "-0\u06634\u096D".toList :=
    .mk .minus (by simp) hdigits
  have hcount : digitCount 347 ≤ 4300 := by decide
  obtain ⟨hint, -, -, -, htext⟩ := Atom.ofWord_iff "-0\u06634\u096D"
  refine ⟨hword, hcount, (hint (-347)).mpr ⟨true, _, hword, by decide, by decide⟩, ?_⟩
  exact htext (-347) hcount

/-- A point and a power of ten make no number without a digit before them. -/
example : Atom.ofWord "+.e1" = .ok (.symbol "+.e1") := rfl

end MiniLisp
