import Mathlib.Data.List.Forall2
import MiniLisp.Number.Numeral

/-!
# The grammar of number words

Which words are numbers, and of which parts, said without the reader: an optional sign, then digits,
digits with a point after or among them, or a point before digits, and then possibly a power of ten.
The digits of all scripts count, mixed freely. The reader takes the words of this grammar and no
others, and finds the parts that they are made up of.

## Main definitions

* `IsDigitOf c d`: the character is the digit of value `d` in some script
* `SignWord`, `MantissaWord`, `PowerWord`: the words for the parts of a number
* `NumberWord n w`: the word is a number word with the parts `n`

## Main results

* `digitValue?_eq_some_iff`: a digit has the value by which it comes after the zero of its script
* `Numeral.read?_eq_some_iff`: the parts that are read off a word are those of the grammar
-/

namespace MiniLisp

/-! ## Digits -/

/-- The character is the digit of value `d` in one of the scripts. -/
def IsDigitOf (c : Char) (d : Nat) : Prop := d < 10 ∧ ∃ z ∈ digitZeros, c.toNat = z + d

/-- The digits of the scripts do not overlap. -/
theorem digitZeros_apart : digitZeros.Pairwise fun z z' => z + 10 ≤ z' := by decide

theorem find?_zero {zs : List Nat} (hzs : zs.Pairwise fun z z' => z + 10 ≤ z') {z n : Nat}
    (hz : z ∈ zs) (hle : z ≤ n) (hlt : n < z + 10) :
    zs.find? (fun z => z ≤ n && n < z + 10) = some z := by
  induction zs with
  | nil => cases hz
  | cons z₀ zs ih =>
    obtain ⟨hfirst, hrest⟩ := List.pairwise_cons.mp hzs
    rcases List.mem_cons.mp hz with rfl | hz
    · exact List.find?_cons_of_pos (by simp [hle, hlt])
    · have hz₀ := hfirst z hz
      rw [List.find?_cons_of_neg (by simp; omega)]
      exact ih hrest hz

/-- A digit is worth what it comes after the zero of its script. -/
theorem digitValue?_eq_some_iff {c : Char} {d : Nat} :
    digitValue? c = some d ↔ IsDigitOf c d := by
  constructor
  · intro h
    refine ⟨digitValue?_lt h, ?_⟩
    obtain ⟨z, hz, rfl⟩ := Option.map_eq_some_iff.mp h
    have hrange := List.find?_some hz
    simp only [Bool.and_eq_true, decide_eq_true_eq] at hrange
    exact ⟨z, List.mem_of_find?_eq_some hz, by omega⟩
  · rintro ⟨hd, z, hz, hc⟩
    have hfind := find?_zero digitZeros_apart hz (n := c.toNat) (by omega) (by omega)
    have hvalue : c.toNat - z = d := by omega
    rw [digitValue?, hfind, Option.map_some, hvalue]

/-- Digits of the given values. -/
abbrev DigitsWord (ds : List Nat) (s : List Char) : Prop := List.Forall₂ IsDigitOf s ds

theorem DigitsWord.lt {ds : List Nat} {s : List Char} (h : DigitsWord ds s) : ∀ d ∈ ds, d < 10 := by
  induction h with
  | nil => exact nofun
  | cons hd _ ih => exact List.forall_mem_cons.mpr ⟨hd.1, ih⟩

/-! ## Words -/

/-- An optional sign. -/
inductive SignWord : Bool → List Char → Prop
  | absent : SignWord false []
  | plus : SignWord false ['+']
  | minus : SignWord true ['-']

/-- Digits, digits with a point after or among them, or a point before digits. -/
inductive MantissaWord : List Nat → Option (List Nat) → List Char → Prop
  | whole {ds : List Nat} {s : List Char} : ds ≠ [] → DigitsWord ds s → MantissaWord ds none s
  | point {ds ds' : List Nat} {s s' : List Char} : ds ≠ [] → DigitsWord ds s →
      DigitsWord ds' s' → MantissaWord ds (some ds') (s ++ '.' :: s')
  | fraction {ds : List Nat} {s : List Char} : ds ≠ [] → DigitsWord ds s →
      MantissaWord [] (some ds) ('.' :: s)

/-- An optional power of ten: the letter `e` in either case, an optional sign, and digits. -/
inductive PowerWord : Option (Bool × List Nat) → List Char → Prop
  | absent : PowerWord none []
  | present {c : Char} {negative : Bool} {ds : List Nat} {sign s : List Char} :
      c = 'e' ∨ c = 'E' → SignWord negative sign → ds ≠ [] → DigitsWord ds s →
      PowerWord (some (negative, ds)) (c :: (sign ++ s))

/-- A number word with the given parts. -/
inductive NumberWord : Numeral → List Char → Prop
  | mk {negative : Bool} {whole : List Nat} {fraction : Option (List Nat)}
      {power : Option (Bool × List Nat)} {sign mantissa p : List Char} :
      SignWord negative sign → MantissaWord whole fraction mantissa → PowerWord power p →
      NumberWord ⟨negative, whole, fraction, power⟩ (sign ++ (mantissa ++ p))

/-! ## What is read is of the grammar -/

theorem exists_signWord {s r : List Char} {negative : Bool} (h : takeSign s = (negative, r)) :
    ∃ sign, s = sign ++ r ∧ SignWord negative sign := by
  unfold takeSign at h
  split at h <;> cases h
  · exact ⟨['+'], rfl, .plus⟩
  · exact ⟨['-'], rfl, .minus⟩
  · exact ⟨[], rfl, .absent⟩

theorem exists_digitsWord {s r : List Char} {ds : List Nat} (h : takeDigits s = (ds, r)) :
    ∃ t, s = t ++ r ∧ DigitsWord ds t := by
  induction s generalizing ds with
  | nil =>
    cases h
    exact ⟨[], rfl, .nil⟩
  | cons c s ih =>
    unfold takeDigits at h
    split at h
    · next d hd =>
      cases h
      obtain ⟨t, ht, hdigits⟩ := ih rfl
      exact ⟨c :: t, congrArg (c :: ·) ht, .cons (digitValue?_eq_some_iff.mp hd) hdigits⟩
    · cases h
      exact ⟨[], rfl, .nil⟩

theorem takeFraction_cases {s r : List Char} {fraction : Option (List Nat)}
    (h : takeFraction s = (fraction, r)) :
    fraction = none ∧ s = r ∨
      ∃ ds t, fraction = some ds ∧ DigitsWord ds t ∧ s = '.' :: (t ++ r) := by
  unfold takeFraction at h
  split at h <;> cases h
  · obtain ⟨t, ht, hdigits⟩ := exists_digitsWord rfl
    exact .inr ⟨_, t, rfl, hdigits, congrArg ('.' :: ·) ht⟩
  · exact .inl ⟨rfl, rfl⟩

/-- The digits before a point and those after it make a mantissa if there is a digit among them. -/
theorem exists_mantissaWord {ds : List Nat} {fraction : Option (List Nat)} {s r r' : List Char}
    (hs : DigitsWord ds s) (hf : takeFraction r = (fraction, r'))
    (hne : ¬ (ds = [] ∧ fraction.getD [] = [])) :
    ∃ mantissa, s ++ r = mantissa ++ r' ∧ MantissaWord ds fraction mantissa := by
  rcases takeFraction_cases hf with ⟨rfl, rfl⟩ | ⟨ds', t, rfl, ht, rfl⟩
  · exact ⟨s, rfl, .whole (fun hds => hne ⟨hds, rfl⟩) hs⟩
  · by_cases hds : ds = []
    · subst hds
      cases hs
      exact ⟨'.' :: t, rfl, .fraction (fun hds' => hne ⟨rfl, hds'⟩) ht⟩
    · exact ⟨s ++ '.' :: t, by simp, .point hds hs ht⟩

theorem powerWord_of_readPower? {s : List Char} {power : Option (Bool × List Nat)}
    (h : readPower? s = some power) : PowerWord power s := by
  cases s with
  | nil =>
    cases h
    exact .absent
  | cons c r =>
    rcases hr : takeSign r with ⟨negative, r₁⟩
    rcases hr₁ : takeDigits r₁ with ⟨ds, r₂⟩
    simp only [readPower?, hr, hr₁, Option.ite_none_right_eq_some, Option.some.injEq] at h
    obtain ⟨⟨hc, hne, rfl⟩, rfl⟩ := h
    obtain ⟨sign, rfl, hsign⟩ := exists_signWord hr
    obtain ⟨t, rfl, hdigits⟩ := exists_digitsWord hr₁
    rw [List.append_nil]
    exact .present hc hsign hne hdigits

/-- A word that is read as a number is a number word with the parts that are read. -/
theorem numberWord_of_read? {w : List Char} {n : Numeral} (h : Numeral.read? w = some n) :
    NumberWord n w := by
  rcases hw : takeSign w with ⟨negative, r₁⟩
  rcases hr₁ : takeDigits r₁ with ⟨whole, r₂⟩
  rcases hr₂ : takeFraction r₂ with ⟨fraction, r₃⟩
  simp only [Numeral.read?, hw, hr₁, hr₂, Option.ite_none_left_eq_some,
    Option.map_eq_some_iff] at h
  obtain ⟨hne, power, hpower, rfl⟩ := h
  obtain ⟨sign, rfl, hsign⟩ := exists_signWord hw
  obtain ⟨s, rfl, hs⟩ := exists_digitsWord hr₁
  obtain ⟨mantissa, hmantissa, hm⟩ := exists_mantissaWord hs hr₂ hne
  rw [hmantissa]
  exact .mk hsign hm (powerWord_of_readPower? hpower)

/-! ## What is of the grammar is read -/

/-- Digits are no signs. -/
theorem IsDigitOf.ne_sign {c : Char} {d : Nat} (h : IsDigitOf c d) : c ≠ '+' ∧ c ≠ '-' := by
  have hne : ∀ c', digitValue? c' = none → c ≠ c' := by
    rintro c' hc' rfl
    cases (digitValue?_eq_some_iff.mpr h).symm.trans hc'
  exact ⟨hne '+' (by decide), hne '-' (by decide)⟩

/-- A sign is taken, if what comes after it is none. -/
theorem SignWord.takeSign_append {negative : Bool} {sign rest : List Char}
    (h : SignWord negative sign) (hrest : ∀ c ∈ rest.head?, c ≠ '+' ∧ c ≠ '-') :
    takeSign (sign ++ rest) = (negative, rest) := by
  cases h with
  | plus => rfl
  | minus => rfl
  | absent =>
    show takeSign rest = _
    unfold takeSign
    split
    · exact absurd rfl (hrest '+' rfl).1
    · exact absurd rfl (hrest '-' rfl).2
    · rfl

/-- The leading digits of a text are all those before something else. -/
theorem takeDigits_append_of_word {ds : List Nat} {s rest : List Char} (h : DigitsWord ds s)
    (hrest : ∀ c ∈ rest.head?, digitValue? c = none) : takeDigits (s ++ rest) = (ds, rest) := by
  induction h with
  | nil =>
    cases rest with
    | nil => rfl
    | cons c rest =>
      have hc := hrest c rfl
      simp only [List.nil_append, takeDigits, hc]
  | cons hc _ ih =>
    simp only [List.cons_append, takeDigits, digitValue?_eq_some_iff.mpr hc, ih]

theorem takeDigits_of_word {ds : List Nat} {s : List Char} (h : DigitsWord ds s) :
    takeDigits s = (ds, []) := by
  have happend : takeDigits (s ++ []) = (ds, []) := takeDigits_append_of_word h nofun
  rwa [List.append_nil] at happend

/-- Digits that are not none begin with a digit. -/
theorem head?_of_digitsWord {ds : List Nat} {s : List Char} (hne : ds ≠ []) (h : DigitsWord ds s)
    (rest : List Char) : ∀ c ∈ (s ++ rest).head?, c ≠ '+' ∧ c ≠ '-' := by
  cases h with
  | nil => exact absurd rfl hne
  | cons hc _ =>
    rintro _ ⟨⟩
    exact hc.ne_sign

/-- In a power of ten neither digits nor the fraction of the mantissa go on. -/
theorem PowerWord.head? {power : Option (Bool × List Nat)} {p : List Char}
    (h : PowerWord power p) : ∀ c ∈ p.head?, digitValue? c = none ∧ c ≠ '.' := by
  cases h with
  | absent => exact nofun
  | present hc _ _ _ =>
    rintro _ ⟨⟩
    rcases hc with rfl | rfl <;> exact ⟨rfl, by decide⟩

theorem PowerWord.readPower? {power : Option (Bool × List Nat)} {p : List Char}
    (h : PowerWord power p) : readPower? p = some power := by
  cases h with
  | absent => rfl
  | @present c negative ds sign s hc hsign hne hs =>
    have hhead := head?_of_digitsWord hne hs []
    rw [List.append_nil] at hhead
    simp [MiniLisp.readPower?, hsign.takeSign_append hhead, takeDigits_of_word hs, hc, hne]

/-- The mantissa begins with a digit or with the point. -/
theorem MantissaWord.head? {whole : List Nat} {fraction : Option (List Nat)} {m : List Char}
    (h : MantissaWord whole fraction m) (rest : List Char) :
    ∀ c ∈ (m ++ rest).head?, c ≠ '+' ∧ c ≠ '-' := by
  cases h with
  | whole hne hs => exact head?_of_digitsWord hne hs rest
  | point hne hs _ =>
    rw [List.append_assoc]
    exact head?_of_digitsWord hne hs _
  | fraction _ _ =>
    rintro _ ⟨⟩
    decide

/-- The mantissa is taken in two parts, which are not both without digits. -/
theorem MantissaWord.take {whole : List Nat} {fraction : Option (List Nat)} {m rest : List Char}
    (h : MantissaWord whole fraction m)
    (hrest : ∀ c ∈ rest.head?, digitValue? c = none ∧ c ≠ '.') :
    ∃ r, takeDigits (m ++ rest) = (whole, r) ∧ takeFraction r = (fraction, rest) ∧
      ¬ (whole = [] ∧ fraction.getD [] = []) := by
  have hdigits : ∀ c ∈ rest.head?, digitValue? c = none := fun c hc => (hrest c hc).1
  have hpoint : ∀ s, ∀ c ∈ ('.' :: s).head?, digitValue? c = none := by
    rintro s _ ⟨⟩
    decide
  cases h with
  | whole hne hs =>
    refine ⟨rest, takeDigits_append_of_word hs hdigits, ?_, fun h => hne h.1⟩
    unfold takeFraction
    split
    · exact absurd rfl (hrest '.' rfl).2
    · rfl
  | @point ds ds' s s' hne hs hs' =>
    refine ⟨'.' :: (s' ++ rest), ?_, ?_, fun h => hne h.1⟩
    · rw [List.append_assoc]
      exact takeDigits_append_of_word hs (hpoint _)
    · simp only [takeFraction, takeDigits_append_of_word hs' hdigits]
  | @fraction ds s hne hs =>
    refine ⟨'.' :: (s ++ rest), takeDigits_append_of_word .nil (hpoint _), ?_, fun h => hne h.2⟩
    simp only [takeFraction, takeDigits_append_of_word hs hdigits]

/-- **The reader of number words follows the grammar**: the parts that are read off a word are those
of which the word is made up, and no other words are read. -/
theorem Numeral.read?_eq_some_iff {w : List Char} {n : Numeral} :
    read? w = some n ↔ NumberWord n w := by
  refine ⟨numberWord_of_read?, ?_⟩
  rintro @⟨negative, whole, fraction, power, sign, m, p, hsign, hm, hp⟩
  obtain ⟨r, hwhole, hfraction, hne⟩ := hm.take hp.head?
  simp only [read?, hsign.takeSign_append (hm.head? p), hwhole, hfraction, hne, if_false,
    hp.readPower?, Option.map_some]

end MiniLisp
