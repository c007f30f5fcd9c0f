import Mathlib.Tactic.Ring
import MiniLisp.Number.Decimal

/-!
# Decimals and the doubles nearest to them

The double nearest to a decimal depends on the value of the decimal alone, not on how it is written
as a coefficient and a power of ten, and the decisions that are made without writing a decimal out
are the right ones. So the shortest decimal of a magnitude is read back as that magnitude.

## Main results

* `nearestRank_units`: a magnitude is nearest to itself
* `Double.ofRatio_congr`: equal quotients have the same nearest double
* `Decimal.toDouble_eq_ofRatio`: the nearest double to a decimal is that to its quotient
* `Decimal.toDouble_shift`: powers of ten may be moved from the coefficient to the exponent
* `Decimal.toDouble_shortest`: a magnitude is the one nearest to its shortest decimal
-/

namespace MiniLisp

/-! ## Shifts as powers -/

theorem rankCount_eq : rankCount = 2047 * 2 ^ 52 := by
  rw [rankCount, Nat.shiftLeft_eq]

theorem nearestRank_eq (p q : Nat) : nearestRank p q =
    ((p / q).log2 - 52) * 2 ^ 52 + roundQuotient p (q * 2 ^ ((p / q).log2 - 52)) := by
  simp only [nearestRank, Nat.shiftLeft_eq]

namespace Double

theorem spacing_eq (r : Nat) : spacing r = r / 2 ^ 52 - 1 := by
  rw [spacing, Nat.shiftRight_eq_div_pow]

theorem significand_eq (r : Nat) : significand r = r - spacing r * 2 ^ 52 :=
  congrArg (r - ·) (Nat.shiftLeft_eq _ _)

theorem units_eq (r : Nat) : units r = significand r * 2 ^ spacing r := Nat.shiftLeft_eq _ _

theorem ofRatio_eq (negative : Bool) (p q : Nat) :
    ofRatio negative p q = ofRank negative (nearestRank (p * 2 ^ unitsLog) q) := by
  rw [ofRatio, Nat.shiftLeft_eq]

end Double

namespace Decimal

theorem numerator_eq (d : Decimal) : d.numerator = d.coefficient * 10 ^ d.exponent.toNat := rfl

theorem denominator_eq (d : Decimal) : d.denominator = 10 ^ (-d.exponent).toNat := rfl

end Decimal

/-! ## Quotients -/

theorem roundQuotient_mul (n : Nat) {q : Nat} (h : 0 < q) : roundQuotient (n * q) q = n := by
  simp [roundQuotient, Nat.mul_div_cancel n h, h]

theorem roundQuotient_mul_right (p q : Nat) {c : Nat} (hc : 0 < c) :
    roundQuotient (p * c) (q * c) = roundQuotient p q := by
  have hrest : 2 * (p * c % (q * c)) = 2 * (p % q) * c := by
    rw [Nat.mul_mod_mul_right, Nat.mul_assoc]
  have hlt : 2 * (p % q) * c < q * c ↔ 2 * (p % q) < q := Nat.mul_lt_mul_right hc
  have heq : 2 * (p % q) * c = q * c ↔ 2 * (p % q) = q := Nat.mul_left_inj hc.ne'
  simp only [roundQuotient, Nat.mul_div_mul_right _ _ hc, hrest, hlt, heq]

/-- The nearest magnitude to a quotient does not depend on common factors. -/
theorem nearestRank_mul_right (p q : Nat) {c : Nat} (hc : 0 < c) :
    nearestRank (p * c) (q * c) = nearestRank p q := by
  simp only [nearestRank_eq, Nat.mul_div_mul_right _ _ hc]
  rw [Nat.mul_right_comm q c, roundQuotient_mul_right _ _ hc]

theorem div_le_roundQuotient (p q : Nat) : p / q ≤ roundQuotient p q := by
  simp only [roundQuotient]
  split <;> omega

/-- Less than half of the smallest magnitude is nearest to zero. -/
theorem nearestRank_eq_zero {p q : Nat} (h : 2 * p < q) : nearestRank p q = 0 := by
  have hlt : p < q := by omega
  have hround : roundQuotient p q = 0 := by
    simp only [roundQuotient, Nat.div_eq_of_lt hlt, Nat.mod_eq_of_lt hlt]
    simp [h]
  simp [nearestRank_eq, Nat.div_eq_of_lt hlt, hround]

open Double in
/-- In its own spacing, a magnitude has the binary logarithm of a significand. -/
theorem log2_units (r : Nat) : (units r).log2 - 52 = spacing r := by
  have hs := spacing_eq r
  have hsig := significand_eq r
  by_cases hr : r < 2 ^ 53
  · have hs0 : spacing r = 0 := by omega
    rw [units_eq, hsig, hs0, Nat.zero_mul, Nat.sub_zero, Nat.pow_zero, Nat.mul_one]
    by_cases h0 : r = 0
    · simp [h0]
    · have := (Nat.log2_lt h0).mpr hr
      omega
  · have hle : 2 ^ 52 ≤ significand r := by omega
    have hlt : significand r < 2 ^ 53 := by omega
    have hpos : 0 < 2 ^ spacing r := Nat.two_pow_pos _
    have hu0 : units r ≠ 0 := by
      rw [units_eq]
      exact (Nat.mul_pos (by omega) hpos).ne'
    have hlog : (units r).log2 < 53 + spacing r := by
      rw [Nat.log2_lt hu0, units_eq, Nat.pow_add]
      exact Nat.mul_lt_mul_of_pos_right hlt hpos
    have hlog' : 52 + spacing r ≤ (units r).log2 := by
      rw [Nat.le_log2 hu0, units_eq, Nat.pow_add]
      exact Nat.mul_le_mul_right _ hle
    omega

open Double in
/-- A magnitude is nearest to itself. -/
theorem nearestRank_units (r : Nat) {q : Nat} (h : 0 < q) : nearestRank (units r * q) q = r := by
  have hq : 0 < q * 2 ^ spacing r := Nat.mul_pos h (Nat.two_pow_pos _)
  have hu : units r * q = significand r * (q * 2 ^ spacing r) := by
    rw [units_eq, Nat.mul_assoc, Nat.mul_comm q]
  have hs := spacing_eq r
  rw [nearestRank_eq, Nat.mul_div_cancel _ h, log2_units, hu, roundQuotient_mul _ hq,
    significand_eq]
  omega

/-- The ranks grow at least as fast as the binary logarithm. -/
theorem le_nearestRank {p q m : Nat} (hm : 52 ≤ m) (h : 2 ^ m ≤ p / q) :
    (m - 51) * 2 ^ 52 ≤ nearestRank p q := by
  have hpos : p / q ≠ 0 := by
    have := Nat.two_pow_pos m
    omega
  obtain ⟨s, hs⟩ := Nat.exists_eq_add_of_le ((Nat.le_log2 hpos).mpr h)
  -- in the spacing of its own, a quotient has at least the 53 bits of a significand
  have hround : 2 ^ 52 ≤ roundQuotient p (q * 2 ^ (m + s - 52)) := by
    refine Nat.le_trans ?_ (div_le_roundQuotient _ _)
    rw [← Nat.div_div_eq_div_mul, Nat.le_div_iff_mul_le (Nat.two_pow_pos _), ← Nat.pow_add]
    have he : 52 + (m + s - 52) = m + s := by omega
    rw [he, ← hs]
    exact Nat.log2_self_le hpos
  rw [nearestRank_eq, hs]
  have he : (m - 51) * 2 ^ 52 ≤ (m + s - 52) * 2 ^ 52 + 2 ^ 52 := by omega
  exact Nat.le_trans he (Nat.add_le_add_left hround _)

namespace Double

theorem ofRank_of_le {negative : Bool} {r : Nat} (h : rankCount ≤ r) :
    ofRank negative r = infinite negative := by
  rw [ofRank, dif_neg (Nat.not_lt.mpr h)]

/-- The rank of a finite magnitude tells it from all others. -/
theorem ofRank_inj {negative : Bool} {r r' : Nat} (hr : r < rankCount)
    (h : ofRank negative r' = ofRank negative r) : r' = r := by
  by_cases hr' : r' < rankCount
  · rw [ofRank, ofRank, dif_pos hr, dif_pos hr'] at h
    injection h with _ h
    exact Fin.mk.inj h
  · rw [ofRank, ofRank, dif_pos hr, dif_neg hr'] at h
    cases h

/-- Equal quotients have the same nearest double. -/
theorem ofRatio_congr (negative : Bool) {p q p' q' : Nat} (hq : 0 < q) (hq' : 0 < q')
    (h : p * q' = p' * q) : ofRatio negative p q = ofRatio negative p' q' := by
  have hp : p * 2 ^ unitsLog * q' = p' * 2 ^ unitsLog * q := by
    rw [Nat.mul_right_comm, h, Nat.mul_right_comm]
  have hrank : nearestRank (p * 2 ^ unitsLog) q = nearestRank (p' * 2 ^ unitsLog) q' := by
    rw [← nearestRank_mul_right _ q hq', hp, Nat.mul_comm q q', nearestRank_mul_right _ _ hq]
  rw [ofRatio_eq, ofRatio_eq, hrank]

end Double

namespace Decimal

/-! ## Decimals out of range -/

theorem denominator_of_nonneg {d : Decimal} (h : 0 ≤ d.exponent) : d.denominator = 1 := by
  rw [denominator_eq, Int.toNat_of_nonpos (Int.neg_nonpos_of_nonneg h), Nat.pow_zero]

theorem two_pow_le_ten_pow (n : Nat) : 2 ^ (3 * n) ≤ 10 ^ n := by
  rw [Nat.pow_mul]
  exact Nat.pow_le_pow_left (by decide) n

/-- From some power of ten on, decimals are beyond the largest magnitude. -/
theorem rankCount_le_of_exponent {d : Decimal} (hc : d.coefficient ≠ 0) (h : 400 < d.exponent) :
    rankCount ≤ nearestRank (d.numerator * 2 ^ Double.unitsLog) d.denominator := by
  obtain ⟨n, hn⟩ : ∃ n, n = d.exponent.toNat := ⟨_, rfl⟩
  have hlog : Double.unitsLog = 1074 := rfl
  have hnum : 2 ^ (3 * n) ≤ d.numerator := by
    rw [numerator_eq, ← hn]
    exact Nat.le_trans (two_pow_le_ten_pow n) (Nat.le_mul_of_pos_left _ (Nat.pos_of_ne_zero hc))
  have hbig : 2 ^ (3 * n + Double.unitsLog) ≤
      d.numerator * 2 ^ Double.unitsLog / d.denominator := by
    rw [denominator_of_nonneg (by omega), Nat.div_one, Nat.pow_add]
    exact Nat.mul_le_mul_right _ hnum
  have hrank : 2047 ≤ 3 * n + Double.unitsLog - 51 := by omega
  rw [rankCount_eq]
  exact Nat.le_trans (Nat.mul_le_mul_right _ hrank) (le_nearestRank (by omega) hbig)

/-- Down from some power of ten, decimals are closer to zero than to the smallest magnitude. -/
theorem nearestRank_of_exponent {d : Decimal}
    (h : d.exponent + d.coefficient.log2 / 3 < -400) :
    nearestRank (d.numerator * 2 ^ Double.unitsLog) d.denominator = 0 := by
  refine nearestRank_eq_zero ?_
  -- a coefficient is below eight to the power of `k + 1`, and the denominator beyond ten to that of
  -- `k + 400`
  obtain ⟨k, hk⟩ : ∃ k, k = d.coefficient.log2 / 3 := ⟨_, rfl⟩
  have hlog : Double.unitsLog = 1074 := rfl
  have hnum : d.numerator = d.coefficient := by
    rw [numerator_eq, Int.toNat_of_nonpos (by omega), Nat.pow_zero, Nat.mul_one]
  have hcoeff : d.coefficient < 2 ^ (3 * k + 3) :=
    Nat.lt_of_lt_of_le Nat.lt_log2_self (Nat.pow_le_pow_right (by decide) (by omega))
  have hdouble : ∀ c u, 2 * (c * 2 ^ u) = c * 2 ^ (u + 1) := fun c u => by
    rw [Nat.pow_succ', Nat.mul_left_comm]
  calc 2 * (d.numerator * 2 ^ Double.unitsLog)
      = d.coefficient * 2 ^ (Double.unitsLog + 1) := by rw [hnum, hdouble]
    _ < 2 ^ (3 * k + 3) * 2 ^ (Double.unitsLog + 1) :=
      Nat.mul_lt_mul_of_pos_right hcoeff (Nat.two_pow_pos _)
    _ = 2 ^ (3 * k + 3 + (Double.unitsLog + 1)) := (Nat.pow_add 2 _ _).symm
    _ ≤ 2 ^ (3 * (k + 401)) := Nat.pow_le_pow_right (by decide) (by omega)
    _ ≤ 10 ^ (k + 401) := two_pow_le_ten_pow _
    _ ≤ d.denominator := Nat.pow_le_pow_right (by decide) (by omega)

/-- The double nearest to a decimal is the one nearest to its quotient, in all cases. -/
theorem toDouble_eq_ofRatio (negative : Bool) (d : Decimal) :
    d.toDouble negative = .ofRatio negative d.numerator d.denominator := by
  unfold toDouble
  split
  · next hc =>
    have hzero : nearestRank (d.numerator * 2 ^ Double.unitsLog) d.denominator = 0 := by
      refine nearestRank_eq_zero ?_
      rw [numerator_eq, hc, Nat.zero_mul, Nat.zero_mul]
      exact d.denominator_pos
    rw [Double.ofRatio_eq, hzero]
  · next hc =>
    split
    · next h => rw [Double.ofRatio_eq, Double.ofRank_of_le (rankCount_le_of_exponent hc h)]
    · split
      · next h => rw [Double.ofRatio_eq, nearestRank_of_exponent h]
      · rfl

/-! ## Ways to write a decimal -/

/-- Powers of ten may be moved from the coefficient to the exponent. -/
theorem toDouble_shift (negative : Bool) (c k : Nat) (e : Int) :
    toDouble negative ⟨c * 10 ^ k, e⟩ = toDouble negative ⟨c, e + k⟩ := by
  rw [toDouble_eq_ofRatio, toDouble_eq_ofRatio]
  refine Double.ofRatio_congr negative (denominator_pos _) (denominator_pos _) ?_
  have he : k + e.toNat + (-(e + k)).toNat = (e + k).toNat + (-e).toNat := by omega
  simp only [numerator_eq, denominator_eq]
  calc c * 10 ^ k * 10 ^ e.toNat * 10 ^ (-(e + k)).toNat
      = c * 10 ^ (k + e.toNat + (-(e + k)).toNat) := by rw [Nat.pow_add, Nat.pow_add]; ring
    _ = c * 10 ^ (e + k).toNat * 10 ^ (-e).toNat := by rw [he, Nat.pow_add]; ring

theorem toDouble_trim (negative : Bool) (c : Nat) (e : Int) :
    (trim c e).toDouble negative = toDouble negative ⟨c, e⟩ := by
  fun_induction trim c e with
  | case1 c e h ih =>
    have hc : c = c / 10 * 10 ^ 1 := by omega
    rw [ih, hc, toDouble_shift, ← hc]
    rfl
  | case2 => rfl

/-! ## The shortest decimal -/

/-- A magnitude written out in full is nearest to itself. -/
theorem nearestRank_exact (r : Nat) :
    nearestRank ((exact r).numerator * 2 ^ Double.unitsLog) (exact r).denominator = r := by
  have hn : (exact r).numerator * 2 ^ Double.unitsLog
      = Double.units r * (exact r).denominator := by
    have h10 : (10 : Nat) ^ Double.unitsLog = 5 ^ Double.unitsLog * 2 ^ Double.unitsLog := by
      rw [← Nat.mul_pow]
    have hd : (exact r).denominator = 10 ^ Double.unitsLog := rfl
    have hc : (exact r).numerator = Double.units r * 5 ^ Double.unitsLog := by
      simp [numerator_eq, exact]
    rw [hd, hc, h10, Nat.mul_assoc]
  rw [hn]
  exact nearestRank_units r (denominator_pos _)

/-- What is nearest to a decimal is so with either sign. -/
theorem toDouble_of_readsBack {r : Nat} (hr : r < rankCount) {d : Decimal}
    (h : readsBack r d = true) (negative : Bool) : d.toDouble negative = .ofRank negative r := by
  have hd := of_decide_eq_true h
  rw [toDouble_eq_ofRatio, Double.ofRatio_eq] at hd ⊢
  rw [Double.ofRank_inj hr hd]

/-- A magnitude is the one nearest to its shortest decimal. -/
theorem toDouble_shortest (negative : Bool) {r : Nat} (hr : r < rankCount) :
    (shortest r).toDouble negative = .ofRank negative r := by
  unfold shortest
  split
  · next h => rw [h]; rfl
  · simp only
    rw [toDouble_trim]
    cases hd : (candidates r 17).find? (readsBack r) with
    | some d => exact toDouble_of_readsBack hr (List.find?_some hd) negative
    | none =>
      show (exact r).toDouble negative = _
      rw [toDouble_eq_ofRatio, Double.ofRatio_eq, nearestRank_exact]

end Decimal

end MiniLisp
