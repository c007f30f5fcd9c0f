import MiniLisp.Proofs.Words

/-!
# Parentheses and quotes of a text

What the characters of a text say about reading it, with no regard to tokens: the quotes are paired
from the left, and the parentheses outside the strings so formed are opened and closed. From this
it can be told whether the text can be read, and where it cannot.

## Main definitions

* `unquoted`: the characters outside strings
* `Paired s`, `nesting s`: the quotes of `s` are paired; the parentheses open at the end of `s`
* `IsStray s p`, `IsUnclosed s p`: a closing parenthesis too many, and an opening one never closed
* `Verdict s failure`: what the characters of `s` say about the failure to read it
* `LeavesOpen s ps`: the parentheses at the offsets `ps` are open at the end of `s`

## Main results

* `Verdict.unique`: there is at most one verdict on a text
* `LeavesOpen.append`, `LeavesOpen.close`: what the next characters do to the open parentheses
* `LeavesOpen.isInnermostUnclosed`: at the end of a text the innermost of them is never closed
-/

namespace MiniLisp

/-- The characters outside strings; `inside` says that the text begins inside of one. A quote
without a partner has everything after it inside. -/
def unquoted : Bool → List Char → List Char
  | _, [] => []
  | inside, c :: s =>
    if c = '"' then unquoted (!inside) s
    else if inside then unquoted inside s
    else c :: unquoted inside s

/-- The quotes of the text are paired. -/
def Paired (s : List Char) : Prop := Even (s.count '"')

instance (s : List Char) : Decidable (Paired s) := inferInstanceAs (Decidable (Even _))

/-- The number of parentheses opened outside strings, less the number of those closed there. -/
def nesting (s : List Char) : Int := (unquoted false s).count '(' - (unquoted false s).count ')'

/-! ## Verdicts -/

section Verdict

variable (s : List Char)

/-- At the offset `p`, outside strings, a parenthesis is closed while none is open. -/
def IsStray (p : Nat) : Prop :=
  s[p]? = some ')' ∧ Paired (s.take p) ∧ nesting (s.take p) = 0

instance (p : Nat) : Decidable (IsStray s p) := inferInstanceAs (Decidable (_ ∧ _ ∧ _))

/-- At the offset `p`, outside strings, a parenthesis is opened, and it is never closed: all that
follows is nested more deeply. -/
def IsUnclosed (p : Nat) : Prop :=
  s[p]? = some '(' ∧ Paired (s.take p) ∧ ∀ q, p < q → nesting (s.take p) < nesting (s.take q)

/-- The last quote is at the offset `p`. -/
def IsLastQuote (p : Nat) : Prop := s[p]? = some '"' ∧ ∀ q, p < q → s[q]? ≠ some '"'

/-- What the characters of a text say about the failure to read it. -/
inductive Verdict : Option ReadError → Prop
  /-- The quotes are paired, and the parentheses balanced. -/
  | balanced : Paired s → (∀ p, 0 ≤ nesting (s.take p)) → nesting s = 0 → Verdict none
  /-- The first parenthesis closed while none is open is at the offset `p`. -/
  | stray {p : Nat} : IsStray s p → (∀ q, q < p → ¬ IsStray s q) →
      Verdict (some (.unmatchedClosing p))
  /-- Or else a quote has no partner, which is the last one. -/
  | openString {p : Nat} : (∀ q, ¬ IsStray s q) → ¬ Paired s → IsLastQuote s p →
      Verdict (some (.unterminatedString p))
  /-- Or else a parenthesis is never closed; the last such is at the offset `p`. -/
  | openList {p : Nat} : (∀ q, ¬ IsStray s q) → Paired s → IsUnclosed s p →
      (∀ q, p < q → ¬ IsUnclosed s q) → Verdict (some (.unterminatedList p))

end Verdict

/-! ## Characters one after the other -/

theorem unquoted_append (inside : Bool) (a b : List Char) :
    unquoted inside (a ++ b) = unquoted inside a ++
      unquoted (if Even (a.count '"') then inside else !inside) b := by
  induction a generalizing inside with
  | nil => simp [unquoted]
  | cons c a ih =>
    by_cases hc : c = '"'
    · subst hc
      simp only [List.cons_append, unquoted, if_true, ih, List.count_cons_self, Nat.even_add_one]
      by_cases h : Even (a.count '"') <;> simp [h]
    · cases inside <;> simp [unquoted, hc, ih]

theorem unquoted_mono (inside : Bool) {a s : List Char} (h : a <+: s) :
    unquoted inside a <+: unquoted inside s := by
  obtain ⟨b, rfl⟩ := h
  rw [unquoted_append]
  exact List.prefix_append _ _

/-- Inside a string that does not end nothing counts. -/
theorem unquoted_inside {s : List Char} (h : '"' ∉ s) : unquoted true s = [] := by
  induction s with
  | nil => rfl
  | cons c s ih =>
    have hc : c ≠ '"' := fun hc => h (hc ▸ List.mem_cons_self)
    rw [unquoted, if_neg hc, if_pos rfl]
    exact ih fun hs => h (List.mem_cons_of_mem _ hs)

/-- Without quotes everything counts. -/
theorem unquoted_outside {s : List Char} (h : '"' ∉ s) : unquoted false s = s := by
  induction s with
  | nil => rfl
  | cons c s ih =>
    have hc : c ≠ '"' := fun hc => h (hc ▸ List.mem_cons_self)
    rw [unquoted, if_neg hc, if_neg Bool.false_ne_true, ih fun hs => h (List.mem_cons_of_mem _ hs)]

@[simp] theorem paired_nil : Paired [] := ⟨0, rfl⟩

theorem paired_of_not_mem {s : List Char} (h : '"' ∉ s) : Paired s := by
  rw [Paired, List.count_eq_zero.mpr h]
  exact ⟨0, rfl⟩

/-- A quote is not paired if no other follows. -/
theorem not_paired_quote {b : List Char} (hb : '"' ∉ b) : ¬ Paired ('"' :: b) := by
  simp [Paired, List.count_eq_zero.mpr hb]

/-- The last quote is the one that no other follows. -/
theorem isLastQuote_append (a : List Char) {b : List Char} (hb : '"' ∉ b) :
    IsLastQuote (a ++ '"' :: b) a.length := by
  refine ⟨by simp, fun q hq hquote => ?_⟩
  obtain ⟨k, rfl⟩ : ∃ k, q = a.length + (k + 1) := ⟨q - a.length - 1, by omega⟩
  rw [List.getElem?_append_right (by omega), Nat.add_sub_cancel_left,
    List.getElem?_cons_succ] at hquote
  exact hb (List.mem_of_getElem? hquote)

/-- After paired quotes the quotes that follow are paired among themselves. -/
theorem Paired.append_iff {a : List Char} (h : Paired a) (b : List Char) :
    Paired (a ++ b) ↔ Paired b := by
  unfold Paired at h ⊢
  rw [List.count_append, Nat.even_add]
  exact iff_true_left h

theorem Paired.of_append_opening {s b : List Char} (hs : Paired s)
    (h : Paired (s ++ '(' :: b)) : Paired b := by
  rw [hs.append_iff] at h
  simpa [Paired] using h

@[simp] theorem nesting_nil : nesting [] = 0 := rfl

/-- What stands outside strings adds up. -/
theorem nesting_append {a : List Char} (h : Paired a) (b : List Char) :
    nesting (a ++ b) = nesting a + nesting b := by
  unfold Paired at h
  simp only [nesting, unquoted_append, h, if_true, List.count_append]
  omega

@[simp] theorem nesting_opening (s : List Char) : nesting ('(' :: s) = 1 + nesting s := by
  have h : unquoted false ('(' :: s) = '(' :: unquoted false s := rfl
  simp only [nesting, h, List.count_cons_self]
  rw [List.count_cons_of_ne (by decide)]
  omega

@[simp] theorem nesting_closing (s : List Char) : nesting (')' :: s) = nesting s - 1 := by
  have h : unquoted false (')' :: s) = ')' :: unquoted false s := rfl
  simp only [nesting, h, List.count_cons_self]
  rw [List.count_cons_of_ne (by decide)]
  omega

/-! ## Verdicts are unique -/

section Unique

variable {s : List Char} {p q : Nat}

/-- After a stray parenthesis the nesting is below zero. -/
theorem IsStray.nesting_neg (h : IsStray s p) : nesting (s.take (p + 1)) < 0 := by
  obtain ⟨hp, hpaired, hzero⟩ := h
  rw [List.take_add_one, hp, Option.toList_some, nesting_append hpaired, hzero, nesting_closing,
    nesting_nil]
  decide

/-- Where the nesting does not go below zero, no parenthesis is stray. -/
theorem not_isStray (h : ∀ a, a <+: s → 0 ≤ nesting a) (p : Nat) : ¬ IsStray s p :=
  fun hp => absurd (h _ (List.take_prefix (p + 1) s)) (not_le.mpr hp.nesting_neg)

/-- At the end of the text the nesting is greater than before an unclosed parenthesis. -/
theorem IsUnclosed.nesting_lt (h : IsUnclosed s p) : nesting (s.take p) < nesting s := by
  have hend := h.2.2 (p + 1 + s.length) (by omega)
  have hall : s.take (p + 1 + s.length) = s := List.take_of_length_le (by omega)
  rwa [hall] at hend

/-- There is at most one verdict on a text. -/
theorem Verdict.unique {r r' : Option ReadError} (h : Verdict s r) (h' : Verdict s r') :
    r = r' := by
  have hbalanced : ∀ {r}, Paired s → (∀ p, 0 ≤ nesting (s.take p)) → nesting s = 0 →
      Verdict s r → r = none := by
    intro r hpaired hnonneg hzero h
    cases h with
    | balanced => rfl
    | stray hp => exact absurd (hnonneg _) (not_le.mpr hp.nesting_neg)
    | openString _ hquote => exact absurd hpaired hquote
    | @openList p _ _ hp =>
      have hlt := hp.nesting_lt
      have hp0 := hnonneg p
      omega
  cases h with
  | balanced h₁ h₂ h₃ => exact (hbalanced h₁ h₂ h₃ h').symm
  | @stray p hp hfirst =>
    cases h' with
    | balanced h₁ h₂ h₃ => exact hbalanced h₁ h₂ h₃ (.stray hp hfirst)
    | stray hq hfirst' =>
      obtain rfl := le_antisymm (not_lt.mp fun hlt => hfirst _ hlt hq)
        (not_lt.mp fun hlt => hfirst' p hlt hp)
      rfl
    | openString hno | openList hno => exact absurd hp (hno p)
  | @openString p hno hodd hp =>
    cases h' with
    | balanced h₁ => exact absurd h₁ hodd
    | stray hq => exact absurd hq (hno _)
    | openString _ _ hq =>
      obtain rfl := le_antisymm (not_lt.mp fun hlt => hq.2 p hlt hp.1)
        (not_lt.mp fun hlt => hp.2 _ hlt hq.1)
      rfl
    | openList _ heven => exact absurd heven hodd
  | @openList p hno heven hp hlast =>
    cases h' with
    | balanced h₁ h₂ h₃ => exact hbalanced h₁ h₂ h₃ (.openList hno heven hp hlast)
    | stray hq => exact absurd hq (hno _)
    | openString _ hodd => exact absurd heven hodd
    | openList _ _ hq hlast' =>
      obtain rfl := le_antisymm (not_lt.mp fun hlt => hlast' p hlt hp)
        (not_lt.mp fun hlt => hlast _ hlt hq)
      rfl

end Unique

/-! ## Open parentheses -/

/-- The parentheses outside strings are balanced. -/
structure Balanced (s : List Char) : Prop where
  nonneg : ∀ a, a <+: s → 0 ≤ nesting a
  nesting_eq_zero : nesting s = 0

/-- A beginning of two texts one after the other is one of the first, or goes on into the second. -/
theorem prefix_append_cases {a b s : List Char} (h : s <+: a ++ b) :
    s <+: a ∨ ∃ c, c <+: b ∧ s = a ++ c := by
  obtain ⟨t, ht⟩ := h
  rcases List.append_eq_append_iff.mp ht with ⟨c, rfl, -⟩ | ⟨c, rfl, rfl⟩
  · exact .inl (List.prefix_append _ _)
  · exact .inr ⟨c, List.prefix_append _ _, rfl⟩

namespace Balanced

/-- Where no parenthesis stands outside strings. -/
theorem of_not_mem {s : List Char} (hopen : '(' ∉ unquoted false s)
    (hclose : ')' ∉ unquoted false s) : Balanced s := by
  have hzero : ∀ a, a <+: s → nesting a = 0 := by
    intro a ha
    have hsub := (unquoted_mono false ha).subset
    rw [nesting, List.count_eq_zero.mpr fun h => hopen (hsub h),
      List.count_eq_zero.mpr fun h => hclose (hsub h)]
    rfl
  exact ⟨fun a ha => (hzero a ha).ge, hzero s (List.prefix_refl s)⟩

theorem append {a b : List Char} (ha : Balanced a) (hpaired : Paired a) (hb : Balanced b) :
    Balanced (a ++ b) := by
  refine ⟨fun s hs => ?_, ?_⟩
  · rcases prefix_append_cases hs with hs | ⟨c, hc, rfl⟩
    · exact ha.nonneg s hs
    · rw [nesting_append hpaired, ha.nesting_eq_zero, zero_add]
      exact hb.nonneg c hc
  · rw [nesting_append hpaired, ha.nesting_eq_zero, hb.nesting_eq_zero, add_zero]

/-- A balanced text in parentheses. -/
theorem parenthesized {s : List Char} (h : Balanced s) (hpaired : Paired s) :
    Balanced ('(' :: (s ++ [')'])) := by
  have hend : nesting (s ++ [')']) = -1 := by
    rw [nesting_append hpaired, h.nesting_eq_zero]
    rfl
  refine ⟨fun a ha => ?_, ?_⟩
  · rcases List.prefix_cons_iff.mp ha with rfl | ⟨b, rfl, hb⟩
    · exact le_refl _
    · rw [nesting_opening]
      rcases List.prefix_concat_iff.mp hb with rfl | hb
      · rw [hend]
        decide
      · exact add_nonneg zero_le_one (h.nonneg b hb)
  · rw [nesting_opening, hend]
    rfl

end Balanced

/-- At the end of the text the parentheses at the given offsets are open, the innermost first, and
no parenthesis was stray. -/
inductive LeavesOpen : List Char → List Nat → Prop
  | balanced {s : List Char} : Balanced s → LeavesOpen s []
  | opening {s b : List Char} {ps : List Nat} : LeavesOpen s ps → Paired s → Balanced b →
      LeavesOpen (s ++ '(' :: b) (s.length :: ps)

namespace LeavesOpen

variable {s : List Char} {ps : List Nat}

theorem nonneg (h : LeavesOpen s ps) : ∀ a, a <+: s → 0 ≤ nesting a := by
  induction h with
  | balanced hs => exact hs.nonneg
  | @opening s b ps _ hpaired hb ih =>
    intro a ha
    rcases prefix_append_cases ha with ha | ⟨c, hc, rfl⟩
    · exact ih a ha
    · rw [nesting_append hpaired]
      have hs := ih s (List.prefix_refl s)
      rcases List.prefix_cons_iff.mp hc with rfl | ⟨d, rfl, hd⟩
      · simpa using hs
      · have hd0 := hb.nonneg d hd
        rw [nesting_opening]
        omega

/-- Balanced parentheses leave the others open. -/
theorem append (h : LeavesOpen s ps) (hpaired : Paired s) {b : List Char} (hb : Balanced b) :
    LeavesOpen (s ++ b) ps := by
  cases h with
  | balanced hs => exact .balanced (hs.append hpaired hb)
  | @opening s c ps h hs hc =>
    rw [List.append_assoc, List.cons_append]
    exact .opening h hs (hc.append (hs.of_append_opening hpaired) hb)

/-- A closing parenthesis closes the innermost open one. -/
theorem close {p : Nat} (h : LeavesOpen s (p :: ps)) (hpaired : Paired s) :
    LeavesOpen (s ++ [')']) ps := by
  cases h with
  | @opening s b ps h hs hb =>
    rw [List.append_assoc, List.cons_append]
    exact h.append hs (hb.parenthesized (hs.of_append_opening hpaired))

/-- At the end of a text the innermost open parenthesis is the last of those never closed. -/
theorem isInnermostUnclosed {p : Nat} (h : LeavesOpen s (p :: ps)) :
    IsUnclosed s p ∧ ∀ q, p < q → ¬ IsUnclosed s q := by
  cases h with
  | @opening s b ps _ hs hb =>
    have hafter : ∀ q, s.length < q →
        nesting ((s ++ '(' :: b).take q) = nesting s + 1 + nesting (b.take (q - s.length - 1)) := by
      intro q hq
      obtain ⟨k, rfl⟩ : ∃ k, q = s.length + (k + 1) := ⟨q - s.length - 1, by omega⟩
      rw [List.take_length_add_append, List.take_succ_cons, nesting_append hs, nesting_opening,
        show s.length + (k + 1) - s.length - 1 = k by omega, add_assoc]
    have hend : nesting (s ++ '(' :: b) = nesting s + 1 := by
      rw [nesting_append hs, nesting_opening, hb.nesting_eq_zero, add_zero]
    refine ⟨⟨by simp, by simpa using hs, fun q hq => ?_⟩, fun q hq hunclosed => ?_⟩
    · rw [hafter q hq, List.take_left]
      have hb0 := hb.nonneg _ (List.take_prefix (q - s.length - 1) b)
      omega
    · have hlt := hunclosed.nesting_lt
      rw [hafter q hq, hend] at hlt
      have hb0 := hb.nonneg _ (List.take_prefix (q - s.length - 1) b)
      omega

end LeavesOpen

end MiniLisp
