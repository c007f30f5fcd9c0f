import MiniLisp.Number.Basic
import MiniLisp.Proofs.NumberWords
import MiniLisp.Proofs.Rounding
import MiniLisp.Reading.Word

/-!
# Numbers as they are written

The text of a number is a number word, and the word stands for that number: an integer is read as
an integer and a double as a double, bit for bit, wherever the point stands and whether an exponent
is written or not.

## Main definitions

* `Numeral.Parts`: the parts of a number word that is written with plain digits
* `Numeral.Parts.text`: the word
* `Decimal.WrittenAs negative d text`: the word stands for a double of the value of the decimal
* `Number.Readable`: integers that are not too long and finite doubles

## Main results

* `Numeral.Parts.read?_text`: the parts of a number word are read off it
* `Decimal.writtenAs_layout`: the layout of a decimal is a number word of the same value
* `Number.exists_parts`: the text of a number is a number word that stands for that number
-/

namespace MiniLisp

/-! ## Digits -/

/-- The value of a plain digit. -/
def plainValue (c : Char) : Nat := c.toNat - '0'.toNat

theorem digitValue?_of_isDigit {c : Char} (h : c.isDigit = true) :
    digitValue? c = some (plainValue c) := by
  have hc : 48 ≤ c.toNat ∧ c.toNat < 58 := by
    simp only [Char.isDigit, Bool.and_eq_true, decide_eq_true_eq] at h
    have h₁ : 48 ≤ c.toNat := h.1
    have h₂ : c.toNat ≤ 57 := h.2
    omega
  rw [digitValue?, digitZeros, List.find?_cons_of_pos (by simpa using hc)]
  rfl

/-- Plain digits are digits. -/
theorem digitsWord_map_plainValue {ds : List Char} (hds : ∀ c ∈ ds, c.isDigit = true) :
    DigitsWord (ds.map plainValue) ds := by
  rw [DigitsWord, List.forall₂_map_right_iff, List.forall₂_same]
  exact fun c hc => digitValue?_eq_some_iff.mp (digitValue?_of_isDigit (hds c hc))

theorem ofDigits_map_plainValue (ds : List Char) :
    ofDigits (ds.map plainValue) = Nat.ofDigitChars 10 ds 0 := by
  rw [ofDigits, List.foldl_map, Nat.ofDigitChars_eq_foldl]
  rfl

/-- Zeros in front do not count. -/
theorem ofDigitChars_replicate_append (n : Nat) (ds : List Char) :
    Nat.ofDigitChars 10 (List.replicate n '0' ++ ds) 0 = Nat.ofDigitChars 10 ds 0 := by
  rw [Nat.ofDigitChars_append, Nat.ofDigitChars_replicate_zero, Nat.mul_zero]

theorem isDigit_of_mem_digits {n : Nat} {c : Char} (h : c ∈ Nat.toDigits 10 n) :
    c.isDigit = true :=
  Nat.isDigit_of_mem_toDigits (by decide) (by decide) h

theorem isDigit_of_mem_replicate {n : Nat} {c : Char} (h : c ∈ List.replicate n '0') :
    c.isDigit = true := by
  rw [List.eq_of_mem_replicate h]
  rfl

/-! ## Number words -/

namespace Numeral

theorem signed_natAbs (i : Int) : signed (decide (i < 0)) i.natAbs = i := by
  rw [signed]
  split
  · next h =>
    have hneg : i < 0 := of_decide_eq_true h
    omega
  · next h =>
    have hneg : ¬ i < 0 := fun hlt => h (decide_eq_true hlt)
    omega

/-- The parts of a number word that is written with plain digits. -/
structure Parts where
  negative : Bool
  whole : List Char
  fraction : Option (List Char)
  /-- The sign and the digits of the power of ten. -/
  power : Option (Bool × List Char)
  whole_ne_nil : whole ≠ []
  isDigit_whole : ∀ c ∈ whole, c.isDigit = true
  isDigit_fraction : ∀ ds ∈ fraction, ∀ c ∈ ds, c.isDigit = true
  power_ne_nil : ∀ p ∈ power, p.2 ≠ []
  isDigit_power : ∀ p ∈ power, ∀ c ∈ p.2, c.isDigit = true

namespace Parts

/-- The point and the digits after it. -/
def fractionText : Option (List Char) → List Char
  | none => []
  | some ds => '.' :: ds

/-- The letter, the sign and the digits of a power of ten. -/
def powerText : Option (Bool × List Char) → List Char
  | none => []
  | some (negative, ds) => 'e' :: (if negative then '-' else '+') :: ds

variable (n : Parts)

/-- The word with the given parts. -/
def text : List Char :=
  signText n.negative ++ (n.whole ++ (fractionText n.fraction ++ powerText n.power))

/-- The parts with the values of the digits. -/
def numeral : Numeral :=
  ⟨n.negative, n.whole.map plainValue, n.fraction.map (·.map plainValue),
    n.power.map fun p => (p.1, p.2.map plainValue)⟩

/-- The point among the digits or after them, if there is one. -/
theorem mantissaWord_text : MantissaWord n.numeral.whole n.numeral.fraction
    (n.whole ++ fractionText n.fraction) := by
  have hne : n.whole.map plainValue ≠ [] := by simpa using n.whole_ne_nil
  have hwhole := digitsWord_map_plainValue n.isDigit_whole
  show MantissaWord (n.whole.map plainValue) (n.fraction.map (·.map plainValue)) _
  cases hf : n.fraction with
  | none =>
    rw [fractionText, List.append_nil]
    exact .whole hne hwhole
  | some ds => exact .point hne hwhole (digitsWord_map_plainValue (n.isDigit_fraction ds hf))

theorem powerWord_text : PowerWord n.numeral.power (powerText n.power) := by
  show PowerWord (n.power.map fun p => (p.1, p.2.map plainValue)) _
  cases hp : n.power with
  | none => exact .absent
  | some p =>
    obtain ⟨negative, ds⟩ := p
    have hne : ds.map plainValue ≠ [] := by simpa using n.power_ne_nil _ hp
    have hds := digitsWord_map_plainValue (n.isDigit_power _ hp)
    cases negative with
    | true => exact .present (.inl rfl) .minus hne hds
    | false => exact .present (.inl rfl) .plus hne hds

theorem signWord_signText (negative : Bool) : SignWord negative (signText negative) := by
  cases negative with
  | true => exact .minus
  | false => exact .absent

/-- The parts of a number word are read off it. -/
theorem read?_text : read? n.text = some n.numeral := by
  have hword := NumberWord.mk (signWord_signText n.negative) n.mantissaWord_text n.powerWord_text
  rw [List.append_assoc] at hword
  exact read?_eq_some_iff.mpr hword

/-- The coefficient of a number word is spelled by its digits, without the point. -/
theorem toDecimal_numeral : n.numeral.toDecimal =
    ⟨Nat.ofDigitChars 10 (n.whole ++ n.fraction.getD []) 0,
      ((n.power.map fun p => signed p.1 (Nat.ofDigitChars 10 p.2 0)).getD 0) -
        (n.fraction.getD []).length⟩ := by
  have hfraction : (n.fraction.map (·.map plainValue)).getD [] =
      (n.fraction.getD []).map plainValue := by
    cases n.fraction <;> rfl
  have hpower : (n.power.map fun p => (p.1, p.2.map plainValue)).map
      (fun p => signed p.1 (ofDigits p.2)) =
      n.power.map fun p => signed p.1 (Nat.ofDigitChars 10 p.2 0) := by
    cases n.power with
    | none => rfl
    | some p => simp only [Option.map_some, ofDigits_map_plainValue]
  rw [toDecimal]
  simp only [numeral, hfraction, hpower, ← List.map_append, ofDigits_map_plainValue,
    List.length_map]

end Parts

end Numeral

/-! ## Doubles -/

namespace Decimal

/-- The text after the sign is a number word that stands for no integer and has the value of the
decimal. -/
def WrittenAs (negative : Bool) (d : Decimal) (text : List Char) : Prop :=
  ∃ n : Numeral.Parts, n.negative = negative ∧ n.text = signText negative ++ text ∧
    n.numeral.isInteger = false ∧ n.numeral.toDecimal.toDouble negative = d.toDouble negative

variable {negative : Bool} {d : Decimal}

/-- Digits with a point among them. -/
theorem writtenAs_point {whole fraction : List Char} (hne : whole ≠ [])
    (hwhole : ∀ c ∈ whole, c.isDigit = true) (hfraction : ∀ c ∈ fraction, c.isDigit = true)
    (hd : toDouble negative ⟨Nat.ofDigitChars 10 (whole ++ fraction) 0, 0 - fraction.length⟩ =
      d.toDouble negative) : d.WrittenAs negative (whole ++ '.' :: fraction) := by
  refine ⟨⟨negative, whole, some fraction, none, hne, hwhole, ?_, by simp, by simp⟩, rfl, ?_, rfl,
    ?_⟩
  · rintro _ ⟨⟩
    exact hfraction
  · simp [Numeral.Parts.text, Numeral.Parts.fractionText, Numeral.Parts.powerText]
  · rw [Numeral.Parts.toDecimal_numeral]
    exact hd

/-- The digits of the power of ten, with zeros in front. -/
theorem exists_signedExponent (width : Nat) (e : Int) :
    ∃ ds, signedExponent width e = (if e < 0 then '-' else '+') :: ds ∧ ds ≠ [] ∧
      (∀ c ∈ ds, c.isDigit = true) ∧
      Numeral.signed (decide (e < 0)) (Nat.ofDigitChars 10 ds 0) = e := by
  refine ⟨_, rfl, ?_, ?_, ?_⟩
  · exact List.append_ne_nil_of_right_ne_nil _ Nat.toDigits_ne_nil
  · intro c hc
    rcases List.mem_append.mp hc with hc | hc
    · exact isDigit_of_mem_replicate hc
    · exact isDigit_of_mem_digits hc
  · rw [ofDigitChars_replicate_append, Nat.ofDigitChars_ten_toDigits, Numeral.signed_natAbs]

section Digits

variable {ds : List Char} (hne : ds ≠ []) (hdigit : ∀ c ∈ ds, c.isDigit = true)
  (hvalue : Nat.ofDigitChars 10 ds 0 = d.coefficient)
include hdigit hvalue

/-- The point before all digits, with zeros between them. -/
theorem writtenAs_before {point : Int} (hpoint : d.exponent = point - ds.length) (hp : point ≤ 0) :
    d.WrittenAs negative ('0' :: '.' :: (List.replicate (-point).toNat '0' ++ ds)) := by
  refine writtenAs_point (List.cons_ne_nil '0' []) (by simp) ?_ ?_
  · intro c hc
    rcases List.mem_append.mp hc with hc | hc
    · exact isDigit_of_mem_replicate hc
    · exact hdigit c hc
  · have hzeros : ['0'] ++ (List.replicate (-point).toNat '0' ++ ds) =
        List.replicate ((-point).toNat + 1) '0' ++ ds := by
      rw [List.replicate_succ]
      rfl
    have hlength : 0 - ((List.replicate (-point).toNat '0' ++ ds).length : Int) =
        d.exponent := by
      rw [List.length_append, List.length_replicate, hpoint]
      omega
    rw [hzeros, ofDigitChars_replicate_append, hvalue, hlength]

/-- The point among the digits. -/
theorem writtenAs_among {p : Nat} (hpoint : d.exponent = p - ds.length) (hp : 0 < p)
    (hlt : p < ds.length) : d.WrittenAs negative (ds.take p ++ '.' :: ds.drop p) := by
  have htake : (ds.take p).length = p := List.length_take_of_le hlt.le
  have hlength : 0 - ((ds.drop p).length : Int) = d.exponent := by
    rw [List.length_drop, hpoint]
    omega
  refine writtenAs_point ?_ ?_ ?_ ?_
  · rw [← List.length_pos_iff, htake]
    exact hp
  · exact fun c hc => hdigit c (List.mem_of_mem_take hc)
  · exact fun c hc => hdigit c (List.mem_of_mem_drop hc)
  · rw [List.take_append_drop, hvalue, hlength]

include hne

/-- The point after all digits, with zeros between them and one more after it. -/
theorem writtenAs_after {p : Nat} (hpoint : d.exponent = p - ds.length) (hge : ds.length ≤ p) :
    d.WrittenAs negative (ds ++ List.replicate (p - ds.length) '0' ++ '.' :: ['0']) := by
  refine writtenAs_point (by simp [hne]) ?_ (by simp) ?_
  · intro c hc
    rcases List.mem_append.mp hc with hc | hc
    · exact hdigit c hc
    · exact isDigit_of_mem_replicate hc
  · have hzeros : ds ++ List.replicate (p - ds.length) '0' ++ ['0'] =
        ds ++ List.replicate (p - ds.length + 1) '0' := by
      rw [List.replicate_succ', List.append_assoc]
    have hexp : 0 - (1 : Int) + (p - ds.length + 1 : Nat) = d.exponent := by omega
    show toDouble negative ⟨Nat.ofDigitChars 10 (ds ++ _ ++ ['0']) 0, 0 - 1⟩ = _
    rw [hzeros, Nat.ofDigitChars_append, Nat.ofDigitChars_replicate_zero, hvalue, Nat.mul_comm,
      toDouble_shift, hexp]

theorem writtenAs_positional {point : Int} (hpoint : d.exponent = point - ds.length) :
    d.WrittenAs negative (positional ds point) := by
  unfold positional
  split
  · next hp => exact writtenAs_before hdigit hvalue hpoint hp
  · next hp =>
    obtain ⟨p, rfl⟩ : ∃ p : Nat, point = p := ⟨point.toNat, by omega⟩
    simp only [Int.toNat_natCast]
    rcases Nat.lt_or_ge p ds.length with hlt | hge
    · have htake : (ds.take p).length = p := List.length_take_of_le hlt.le
      have hdrop : (ds.drop p).isEmpty = false := by
        rw [List.isEmpty_eq_false_iff, ← List.length_pos_iff, List.length_drop]
        omega
      rw [htake, Nat.sub_self, List.replicate_zero, List.append_nil, hdrop]
      exact writtenAs_among hdigit hvalue hpoint (by omega) hlt
    · rw [List.take_of_length_le hge, List.drop_eq_nil_of_le hge]
      exact writtenAs_after hne hdigit hvalue hpoint hge

/-- One digit, the point, the other digits, and the power of ten. -/
theorem writtenAs_scientific (width : Nat) {e : Int} (he : d.exponent = e - (ds.length - 1)) :
    d.WrittenAs negative (scientific width ds e) := by
  obtain ⟨c, rest, rfl⟩ := List.exists_cons_of_ne_nil hne
  obtain ⟨es, hes, hesne, hesdigit, hsigned⟩ := exists_signedExponent width e
  have hc : ∀ c' ∈ [c], c'.isDigit = true :=
    fun c' hc' => hdigit c' (List.mem_singleton.mp hc' ▸ List.mem_cons_self)
  rw [List.length_cons] at he
  refine ⟨⟨negative, [c], if rest.isEmpty then none else some rest, some (decide (e < 0), es),
    by simp, hc, ?_, ?_, ?_⟩, rfl, ?_, ?_, ?_⟩
  · intro ds hds c' hc'
    split at hds
    · cases hds
    · cases hds
      exact hdigit c' (List.mem_cons_of_mem _ hc')
  · rintro _ ⟨⟩
    exact hesne
  · rintro _ ⟨⟩
    exact hesdigit
  · cases rest <;>
      simp [scientific, hes, Numeral.Parts.text, Numeral.Parts.fractionText,
        Numeral.Parts.powerText]
  · exact Bool.and_false _
  · have hfraction : (if rest.isEmpty then none else some rest).getD [] = rest := by
      cases rest <;> rfl
    have hexp : e - rest.length = d.exponent := by omega
    rw [Numeral.Parts.toDecimal_numeral]
    simp only [hfraction, Option.map_some, Option.getD_some, hsigned, List.singleton_append, hvalue,
      hexp]

end Digits

/-- The layout of a decimal is a number word of the same value. -/
theorem writtenAs_layout (l : DoubleLayout) : d.WrittenAs negative (d.layout l) := by
  have hne : Nat.toDigits 10 d.coefficient ≠ [] := Nat.toDigits_ne_nil
  have hdigit : ∀ c ∈ Nat.toDigits 10 d.coefficient, c.isDigit = true :=
    fun _ => isDigit_of_mem_digits
  have hvalue := Nat.ofDigitChars_ten_toDigits (n := d.coefficient)
  simp only [layout]
  split
  · exact writtenAs_positional hne hdigit hvalue (by omega)
  · exact writtenAs_scientific hne hdigit hvalue _ (by omega)

end Decimal

/-! ## Numbers -/

/-- The number can be read back from its text: an integer has no more digits than are taken, and a
double is finite. -/
def Number.Readable : Number → Prop
  | int i => digitCount i.natAbs ≤ maxIntegerDigits
  | double d => d.isFinite = true

/-- The digits of an integer as a number word. -/
def Numeral.Parts.ofInt (i : Int) : Numeral.Parts where
  negative := decide (i < 0)
  whole := Nat.toDigits 10 i.natAbs
  fraction := none
  power := none
  whole_ne_nil := Nat.toDigits_ne_nil
  isDigit_whole _ := isDigit_of_mem_digits
  isDigit_fraction := nofun
  power_ne_nil := nofun
  isDigit_power := nofun

theorem Numeral.Parts.toList_intText (i : Int) : (intText i).toList = (ofInt i).text := by
  simp [intText, text, ofInt, fractionText, powerText]

/-- The text of a double as a number word. -/
theorem Double.exists_parts (negative : Bool) (r : Fin rankCount) :
    ∃ n : Numeral.Parts, (finite negative r).text.toList = n.text ∧ n.numeral.isInteger = false ∧
      n.numeral.toDouble = .finite negative r := by
  obtain ⟨n, hn, htext, hint, hdouble⟩ :=
    @Decimal.writtenAs_layout negative (Decimal.shortest r) doubleLayout
  refine ⟨n, ?_, hint, ?_⟩
  · rw [text, String.toList_ofList, htext]
  · have hrank := Decimal.toDouble_shortest negative r.isLt
    have hsign : n.numeral.negative = negative := hn
    rw [Numeral.toDouble, hsign, hdouble, hrank, ofRank, dif_pos r.isLt]

theorem Numeral.toInt_ofInt (i : Int) : (Parts.ofInt i).numeral.toInt = i := by
  have hdigits : ofDigits ((Nat.toDigits 10 i.natAbs).map plainValue) = i.natAbs := by
    rw [ofDigits_map_plainValue, Nat.ofDigitChars_ten_toDigits]
  show signed (decide (i < 0)) (ofDigits ((Nat.toDigits 10 i.natAbs).map plainValue)) = i
  rw [hdigits, signed_natAbs]

/-- The text of a number is a number word that stands for it. -/
theorem Number.exists_parts {n : Number} (h : n.Readable) :
    ∃ p : Numeral.Parts, n.text.toList = p.text ∧ Atom.ofWord n.text = .ok (.number n) := by
  match n, h with
  | int i, hi =>
    refine ⟨.ofInt i, Numeral.Parts.toList_intText i, ?_⟩
    have hread : Numeral.read? (intText i).toList = some (Numeral.Parts.ofInt i).numeral := by
      rw [Numeral.Parts.toList_intText, Numeral.Parts.read?_text]
    have hlength : ¬ maxIntegerDigits < (Numeral.Parts.ofInt i).numeral.whole.length := by
      rw [show (Numeral.Parts.ofInt i).numeral.whole.length = digitCount i.natAbs from
        List.length_map _]
      exact Nat.not_lt.mpr hi
    have hint : (Numeral.Parts.ofInt i).numeral.isInteger = true := rfl
    rw [Atom.ofWord, text, hread]
    simp only [hint, if_true, hlength, if_false, Numeral.toInt_ofInt]
  | double (.finite negative r), _ =>
    obtain ⟨p, htext, hint, hdouble⟩ := Double.exists_parts negative r
    refine ⟨p, htext, ?_⟩
    have hread : Numeral.read? (Double.finite negative r).text.toList = some p.numeral := by
      rw [htext, p.read?_text]
    rw [Atom.ofWord, text, hread]
    simp only [hint, Bool.false_eq_true, if_false, hdouble]

end MiniLisp
