import MiniLisp.Proofs.Grammar
import MiniLisp.Proofs.Nesting

/-!
# Reading a whole text

Whether a text can be read, and which place of it a failure is put down to, can be told from its
quotes and parentheses alone, as long as no integer in it is too long. The expressions before a
failure are all those that are complete before that place.

## Main definitions

* `Token.IsOversized`: a word that spells an integer of too many digits
* `Reached s opened`: the text `s` has been read and leaves the given lists open
* `CompleteBefore s p es`: the expressions that are complete before the offset `p` are `es`
* `firstOf s r`: the first expression of all that was read, or the failure to read one

## Main results

* `Reached.step`: what a token does to the text before it
* `verdict_readTokens`: the failure to read a text is what its characters say
* `parseAll_eq_iff_verdict`: acceptance, the place of a failure, and the expressions before it
-/

namespace MiniLisp

/-- A word that spells an integer of more digits than are taken. -/
def Token.IsOversized (t : Token) : Prop :=
  t.kind = .word ∧ ∃ n ∈ Numeral.read? t.value.toList, n.isInteger = true ∧
    maxIntegerDigits < n.whole.length

instance (t : Token) : Decidable t.IsOversized := inferInstanceAs (Decidable (_ ∧ _))

/-- Any other word stands for an atom. -/
theorem exists_ofWord {t : Token} (hkind : t.kind = .word) (h : ¬ t.IsOversized) :
    ∃ a, Atom.ofWord t.value = .ok a := by
  unfold Atom.ofWord
  split
  · exact ⟨_, rfl⟩
  · next n hn =>
    split
    · next hint =>
      rw [if_neg fun hlong => h ⟨hkind, n, hn, hint, hlong⟩]
      exact ⟨_, rfl⟩
    · exact ⟨_, rfl⟩

/-- The only words that stand for nothing are integers that are too long. -/
theorem ofWord_error {w : String} {e : ReadError} (h : Atom.ofWord w = .error e) :
    e = .oversizedInteger := by
  unfold Atom.ofWord at h
  split at h
  · cases h
  · split at h
    · split at h <;> cases h
      rfl
    · cases h

/-- The expressions that are complete before the offset `p`: the tokens before `p` spell them, and
after these no tokens spell an expression. -/
def CompleteBefore (s : String) (p : Int) (es : List Expr) : Prop :=
  ∃ ts rest, (Source.ofText s).drain.1.filter (fun t => t.pos < p) = ts ++ rest ∧
    Spellings ts es ∧ ∀ us e, us <+: rest → ¬ Spelling us e

/-- The first expression of all that was read from the text; if there is none, the failure, or that
there is nothing to read. -/
def firstOf (s : String) : List Expr × Option ReadError → Except ReadError Expr
  | (e :: _, _) => .ok e
  | ([], some e) => .error e
  | ([], none) => .error (.emptyInput s.length)

/-! ## Texts between tokens -/

theorem IsBlanks.not_mem {gap : List Char} (h : IsBlanks gap) {c : Char}
    (hc : isBlank c = false) : c ∉ gap :=
  fun hmem => Bool.false_ne_true (hc.symm.trans (h c hmem))

theorem balanced_of_not_mem {s : List Char} (hquote : '"' ∉ s) (hopen : '(' ∉ s)
    (hclose : ')' ∉ s) : Balanced s := by
  rw [← unquoted_outside hquote] at hopen hclose
  exact .of_not_mem hopen hclose

theorem IsBlanks.balanced {gap : List Char} (h : IsBlanks gap) : Balanced gap :=
  balanced_of_not_mem (h.not_mem (by decide)) (h.not_mem (by decide)) (h.not_mem (by decide))

theorem IsBlanks.paired {gap : List Char} (h : IsBlanks gap) : Paired gap :=
  paired_of_not_mem (h.not_mem (by decide))

/-- A token but a parenthesis has its quotes paired and no parenthesis outside of them. -/
theorem Token.IsLexeme.balanced {t : Token} (h : t.IsLexeme)
    (hkind : t.kind = .word ∨ t.kind = .str) : Paired t.raw ∧ Balanced t.raw := by
  rcases hkind with hkind | hkind
  · simp only [IsLexeme, hkind] at h
    have hnot : ∀ c, isWordChar c = false → c ∉ t.value.toList :=
      fun c hc hmem => Bool.false_ne_true (hc.symm.trans (h.2 c hmem))
    simp only [raw, hkind]
    exact ⟨paired_of_not_mem (hnot _ (by decide)),
      balanced_of_not_mem (hnot _ (by decide)) (hnot _ (by decide)) (hnot _ (by decide))⟩
  · simp only [IsLexeme, hkind] at h
    simp only [raw, hkind]
    have hbody : unquoted false ('"' :: (t.value.toList ++ ['"'])) = [] := by
      show unquoted true (t.value.toList ++ ['"']) = []
      rw [unquoted_append, unquoted_inside h]
      rfl
    refine ⟨?_, .of_not_mem ?_ ?_⟩
    · simp [Paired, List.count_eq_zero.mpr h]
    · simp [hbody]
    · simp [hbody]

theorem Token.IsLexeme.raw_opening {t : Token} (h : t.IsLexeme) (hkind : t.kind = .opening) :
    t.raw = ['('] := by
  simp only [IsLexeme, hkind] at h
  simp only [raw, hkind, h]
  rfl

theorem Token.IsLexeme.raw_closing {t : Token} (h : t.IsLexeme) (hkind : t.kind = .closing) :
    t.raw = [')'] := by
  simp only [IsLexeme, hkind] at h
  simp only [raw, hkind, h]
  rfl

/-! ## Reading and nesting -/

/-- The text consists of whole tokens and blanks and leaves the given lists open: these are the
parentheses open at its end. -/
structure Reached (s : List Char) (opened : List OpenList) : Prop where
  paired : Paired s
  leavesOpen : ∃ ps, LeavesOpen s ps ∧ opened.map OpenList.pos = ps.map Nat.cast

theorem reached_nil : Reached [] [] :=
  ⟨paired_nil, [], .balanced (balanced_of_not_mem nofun nofun nofun), rfl⟩

/-- What a step says of the text up to the end of the token. -/
def Step.Reaches (s : List Char) : Step → Prop
  | .refuse _ => False
  | .fail _ => False
  | .complete _ => Reached s []
  | .proceed opened => Reached s opened

namespace Reached

variable {s : List Char} {opened : List OpenList}

theorem nonneg (h : Reached s opened) : ∀ a, a <+: s → 0 ≤ nesting a := by
  obtain ⟨ps, hps, -⟩ := h.leavesOpen
  exact hps.nonneg

theorem nesting_eq_zero (h : Reached s []) : nesting s = 0 := by
  obtain ⟨ps, hps, hpos⟩ := h.leavesOpen
  rw [List.map_nil] at hpos
  obtain rfl := List.map_eq_nil_iff.mp hpos.symm
  cases hps with
  | balanced hs => exact hs.nesting_eq_zero

theorem append (h : Reached s opened) {b : List Char} (hpaired : Paired b) (hb : Balanced b) :
    Reached (s ++ b) opened := by
  obtain ⟨ps, hps, hpos⟩ := h.leavesOpen
  exact ⟨(h.paired.append_iff b).mpr hpaired, ps, hps.append h.paired hb, hpos⟩

/-- A new item does not change which lists are open. -/
theorem supply (h : Reached s opened) (e : Expr) : (supply e opened).Reaches s := by
  cases opened with
  | nil => exact h
  | cons l opened => exact ⟨h.paired, h.leavesOpen⟩

theorem opening (h : Reached s opened) (l : OpenList) (hl : l.pos = s.length) :
    Reached (s ++ ['(']) (l :: opened) := by
  obtain ⟨ps, hps, hpos⟩ := h.leavesOpen
  refine ⟨(h.paired.append_iff _).mpr (paired_of_not_mem (by decide)), s.length :: ps,
    .opening hps h.paired (balanced_of_not_mem nofun nofun nofun), ?_⟩
  rw [List.map_cons, List.map_cons, hpos, hl]

theorem closing {l : OpenList} (h : Reached s (l :: opened)) : Reached (s ++ [')']) opened := by
  obtain ⟨ps, hps, hpos⟩ := h.leavesOpen
  cases ps with
  | nil => cases hpos
  | cons p ps =>
    refine ⟨(h.paired.append_iff _).mpr (paired_of_not_mem (by decide)), ps,
      hps.close h.paired, ?_⟩
    exact (List.cons.inj hpos).2

/-- A token is taken, unless it closes a list while none is open. -/
theorem step {t : Token} (h : Reached s opened) (ht : t.IsLexeme) (hpos : t.pos = s.length)
    (hword : ¬ t.IsOversized) (hclosing : t.kind = .closing → opened ≠ []) :
    (step t opened).Reaches (s ++ t.raw) := by
  cases hkind : t.kind with
  | word =>
    obtain ⟨a, ha⟩ := exists_ofWord hkind hword
    obtain ⟨hpaired, hbalanced⟩ := ht.balanced (.inl hkind)
    simp only [MiniLisp.step, hkind, ha]
    exact (h.append hpaired hbalanced).supply _
  | str =>
    obtain ⟨hpaired, hbalanced⟩ := ht.balanced (.inr hkind)
    simp only [MiniLisp.step, hkind]
    exact (h.append hpaired hbalanced).supply _
  | opening =>
    rw [ht.raw_opening hkind]
    simp only [MiniLisp.step, hkind]
    exact h.opening _ hpos
  | closing =>
    obtain ⟨l, opened, rfl⟩ := List.exists_cons_of_ne_nil (hclosing hkind)
    rw [ht.raw_closing hkind]
    simp only [MiniLisp.step, hkind]
    exact h.closing.supply _
  | other name =>
    simp only [Token.IsLexeme, hkind] at ht

/-- At the end of the text a list that is open is an unclosed parenthesis. -/
theorem verdict (h : Reached s opened) : Verdict s (unclosed opened) := by
  obtain ⟨ps, hps, hpos⟩ := h.leavesOpen
  cases opened with
  | nil => exact .balanced h.paired (fun p => h.nonneg _ (List.take_prefix p s)) h.nesting_eq_zero
  | cons l opened =>
    cases ps with
    | nil => cases hpos
    | cons p ps =>
      obtain ⟨hp, hlast⟩ := hps.isInnermostUnclosed
      rw [unclosed, (List.cons.inj hpos).1]
      exact .openList (not_isStray h.nonneg) h.paired hp hlast

/-- A quote without a partner is the last one. -/
theorem verdict_quote (h : Reached s opened) {b : List Char} (hb : '"' ∉ b) :
    Verdict (s ++ '"' :: b) (some (.unterminatedString s.length)) := by
  obtain ⟨ps, hps, -⟩ := h.leavesOpen
  have hnone : unquoted false ('"' :: b) = [] := unquoted_inside hb
  have hbalanced : Balanced ('"' :: b) := .of_not_mem (by simp [hnone]) (by simp [hnone])
  refine .openString (not_isStray (hps.append h.paired hbalanced).nonneg) ?_
    (isLastQuote_append s hb)
  rw [h.paired.append_iff]
  exact not_paired_quote hb

/-- A parenthesis that is closed while no list is open is the first such. -/
theorem verdict_closing (h : Reached s []) (b : List Char) :
    Verdict (s ++ ')' :: b) (some (.unmatchedClosing s.length)) := by
  refine .stray ⟨by simp, by simpa using h.paired, by simpa using h.nesting_eq_zero⟩ ?_
  intro q hq hstray
  have hneg := hstray.nesting_neg
  rw [List.take_append_of_le_length hq] at hneg
  exact absurd (h.nonneg _ (List.take_prefix (q + 1) s)) (not_le.mpr hneg)

end Reached

/-- **The failure to read a text is what its characters say.** -/
theorem verdict_readTokens {pos : Nat} {b : List Char} {ts : List Token}
    {failure : Option ReadError} (hb : Lexing pos b ts failure) {s : List Char}
    {opened : List OpenList} (hs : Reached s opened) (hpos : pos = s.length)
    (hwords : ∀ t ∈ ts, ¬ t.IsOversized) :
    Verdict (s ++ b) (readTokens failure opened ts).2 := by
  induction hb generalizing s opened with
  | finished hgap =>
    exact (hs.append hgap.paired hgap.balanced).verdict
  | @unterminated pos gap body hgap hbody =>
    have h := (hs.append hgap.paired hgap.balanced).verdict_quote hbody
    rw [List.append_assoc, List.length_append, ← hpos] at h
    exact h
  | @token pos gap rest t ts failure hgap ht htpos _ _ ih =>
    have hgap' := hs.append hgap.paired hgap.balanced
    have hlength : (s ++ gap).length = pos + gap.length := by
      rw [List.length_append, hpos]
    have hassoc : s ++ (gap ++ (t.raw ++ rest)) = s ++ gap ++ t.raw ++ rest := by
      simp only [List.append_assoc]
    rw [readTokens_cons]
    -- such a token ends the reading; after any other one the characters read so far reach the lists
    -- that are open then
    by_cases hclosing : t.kind = .closing ∧ opened = []
    · obtain ⟨hkind, rfl⟩ := hclosing
      have h := hgap'.verdict_closing rest
      rw [hlength] at h
      have hstep : step t [] = .refuse (.unmatchedClosing t.pos) := by
        simp only [step, hkind]
      rw [hassoc, ht.raw_closing hkind, hstep, List.append_assoc, htpos]
      exact h
    · have hstep := hgap'.step ht (hlength ▸ htpos) (hwords t List.mem_cons_self)
        fun hkind hopened => hclosing ⟨hkind, hopened⟩
      have hlength' : pos + gap.length + t.raw.length = (s ++ gap ++ t.raw).length := by
        rw [List.length_append, hlength]
      have hwords' : ∀ t' ∈ ts, ¬ t'.IsOversized :=
        fun t' h => hwords t' (List.mem_cons_of_mem _ h)
      rw [hassoc]
      cases hst : step t opened with
      | refuse e | fail e =>
        rw [hst] at hstep
        exact hstep.elim
      | complete e =>
        rw [hst] at hstep
        exact ih hstep hlength' hwords'
      | proceed opened' =>
        rw [hst] at hstep
        exact ih hstep hlength' hwords'

/-! ## Expressions before a failure -/

/-- The places of tokens and of the failure after them, in order. -/
def places (ts : List Token) (failure : Option ReadError) : List Int :=
  ts.map Token.pos ++ (failure.bind ReadError.position).toList

theorem Token.IsLexeme.length_raw_pos {t : Token} (h : t.IsLexeme) : 0 < t.raw.length := by
  cases hkind : t.kind with
  | word =>
    simp only [IsLexeme, hkind] at h
    simp only [raw, hkind, List.length_pos_iff, ne_eq, String.toList_eq_nil_iff]
    exact h.1
  | str =>
    simp only [raw, hkind, List.length_cons]
    omega
  | opening =>
    rw [h.raw_opening hkind]
    decide
  | closing =>
    rw [h.raw_closing hkind]
    decide
  | other name => simp only [IsLexeme, hkind] at h

/-- The tokens of a text, and the failure after them, stand one after the other. -/
theorem Lexing.pairwise_places {pos : Nat} {s : List Char} {ts : List Token}
    {failure : Option ReadError} (h : Lexing pos s ts failure) :
    (∀ x ∈ places ts failure, (pos : Int) ≤ x) ∧ (places ts failure).Pairwise (· < ·) := by
  induction h with
  | finished => exact ⟨nofun, .nil⟩
  | @unterminated pos gap body =>
    refine ⟨fun x hx => ?_, List.pairwise_singleton _ _⟩
    rw [List.mem_singleton.mp hx]
    omega
  | @token pos gap rest t ts failure _ ht htpos _ _ ih =>
    obtain ⟨hge, hsorted⟩ := ih
    have hraw := ht.length_raw_pos
    refine ⟨List.forall_mem_cons.mpr ⟨?_, fun x hx => ?_⟩, List.pairwise_cons.mpr ⟨fun x hx => ?_,
      hsorted⟩⟩
    · omega
    · have hx := hge x hx
      omega
    · have hx := hge x hx
      omega

/-- Where a step leaves the reading: a refused token is the place of the failure, and lists are open
at the place of the token, or where they were before. -/
def Step.At (t : Token) (opened : List OpenList) : Step → Prop
  | .refuse e => e.position = some t.pos
  | .fail e => e.position = none
  | .complete _ => True
  | .proceed opened' => opened' ≠ [] ∧
      opened'.map OpenList.pos ⊆ t.pos :: opened.map OpenList.pos

theorem supply_at (e : Expr) (t : Token) {opened opened' : List OpenList}
    (h : opened'.map OpenList.pos ⊆ opened.map OpenList.pos) :
    (supply e opened').At t opened := by
  cases opened' with
  | nil => trivial
  | cons l opened' => exact ⟨List.cons_ne_nil _ _, fun x hx => List.mem_cons_of_mem _ (h hx)⟩

theorem step_at (t : Token) (opened : List OpenList) : (step t opened).At t opened := by
  unfold step
  split
  · split
    · exact supply_at _ _ fun _ => id
    · next e he =>
      obtain rfl := ofWord_error he
      rfl
  · exact supply_at _ _ fun _ => id
  · exact ⟨List.cons_ne_nil _ _, fun _ => id⟩
  · split
    · rfl
    · exact supply_at _ _ (List.subset_cons_self _ _)
  · rfl

/-- Where nothing is read, the failure is put down to the place of a token or of a list that was
open, or is the one after the tokens. -/
theorem mem_places_of_readTokens {failure : Option ReadError} {opened : List OpenList}
    {us : List Token} {e : ReadError} {p : Int} (h : readTokens failure opened us = ([], some e))
    (hp : e.position = some p) : p ∈ opened.map OpenList.pos ++ places us failure := by
  induction us generalizing opened with
  | nil =>
    have hend : failure.or (unclosed opened) = some e := (Prod.mk.inj h).2
    rw [List.mem_append]
    cases failure with
    | some f =>
      cases hend
      simp [places, hp]
    | none =>
      cases opened with
      | nil => cases hend
      | cons l opened =>
        cases hend
        cases hp
        exact .inl List.mem_cons_self
  | cons t us ih =>
    have hat := step_at t opened
    rw [readTokens_cons] at h
    cases hst : step t opened with
    | refuse f =>
      rw [hst] at h hat
      cases h
      cases hat.symm.trans hp
      simp [places]
    | fail f =>
      rw [hst] at h hat
      cases h
      cases hat.symm.trans hp
    | complete f =>
      rw [hst] at h
      cases h
    | proceed opened' =>
      rw [hst] at h hat
      rcases List.mem_append.mp (ih h) with hopened | hrest
      · rcases List.mem_cons.mp (hat.2 hopened) with rfl | hmem
        · simp [places]
        · exact List.mem_append_left _ hmem
      · exact List.mem_append_right _ (List.mem_cons_of_mem _ hrest)

/-- Only tokens that close all their lists are read without a failure. -/
theorem eq_nil_of_readTokens {failure : Option ReadError} {opened : List OpenList} {us : List Token}
    (h : readTokens failure opened us = ([], none)) : us = [] ∧ opened = [] := by
  induction us generalizing opened with
  | nil =>
    have hend : failure.or (unclosed opened) = none := (Prod.mk.inj h).2
    cases opened with
    | nil => exact ⟨rfl, rfl⟩
    | cons l opened => cases failure <;> cases hend
  | cons t us ih =>
    have hat := step_at t opened
    rw [readTokens_cons] at h
    cases hst : step t opened with
    | refuse f | fail f | complete f =>
      rw [hst] at h
      cases h
    | proceed opened' =>
      rw [hst] at h hat
      exact absurd (ih h).2 hat.1

/-- Of tokens in order, those before an offset come first. -/
theorem filter_prefix_of_pairwise {ts : List Token} (h : (ts.map Token.pos).Pairwise (· < ·))
    (p : Int) : ts.filter (fun t => t.pos < p) <+: ts := by
  induction ts with
  | nil => exact List.nil_prefix
  | cons t ts ih =>
    obtain ⟨hlt, hsorted⟩ := List.pairwise_cons.mp h
    by_cases ht : t.pos < p
    · rw [List.filter_cons_of_pos (by simpa using ht)]
      exact List.cons_prefix_cons.mpr ⟨rfl, ih hsorted⟩
    · have hnone : (t :: ts).filter (fun t => t.pos < p) = [] := by
        rw [List.filter_eq_nil_iff]
        intro u hu
        rcases List.mem_cons.mp hu with rfl | hu
        · simpa using ht
        · have hu := hlt _ (List.mem_map_of_mem hu)
          simp only [decide_eq_true_eq]
          omega
      rw [hnone]
      exact List.nil_prefix

theorem completeBefore_of_parseAll {s : String} {e : ReadError} {p : Int}
    (h : (parseAll s).2 = some e) (hp : e.position = some p) :
    CompleteBefore s p (parseAll s).1 := by
  rw [parseAll_eq_readTokens] at h ⊢
  obtain ⟨ts, rest, hts, hspell, hrest⟩ :=
    exists_spellings_of_readTokens (Source.ofText s).drain.2 .nil (Source.ofText s).drain.1
  have hsorted := (lexing_drain s.toList 0).pairwise_places.2
  rw [show (Source.text s.toList 0).drain.1 = ts ++ rest from hts, places, List.map_append,
    List.append_assoc, List.pairwise_append] at hsorted
  rw [h] at hrest
  have hplace : p ∈ places rest (Source.ofText s).drain.2 := mem_places_of_readTokens hrest hp
  have hbefore : ts.filter (fun t => t.pos < p) = ts := by
    rw [List.filter_eq_self]
    intro t ht
    exact decide_eq_true (hsorted.2.2 _ (List.mem_map_of_mem ht) p hplace)
  have hprefix := filter_prefix_of_pairwise (List.pairwise_append.mp hsorted.2.1).1 p
  rw [List.nil_append] at hts
  refine ⟨ts, rest.filter (fun t => t.pos < p), ?_, hspell, fun us e hus =>
    not_spelling_of_readTokens hrest (hus.trans hprefix)⟩
  rw [hts, List.filter_append, hbefore]

/-- The tokens of a text that is read without a failure spell its expressions. -/
theorem spellings_of_parseAll {s : String} (h : (parseAll s).2 = none) :
    Spellings (Source.ofText s).drain.1 (parseAll s).1 := by
  rw [parseAll_eq_readTokens] at h ⊢
  obtain ⟨ts, rest, hts, hspell, hrest⟩ :=
    exists_spellings_of_readTokens (Source.ofText s).drain.2 .nil (Source.ofText s).drain.1
  rw [h] at hrest
  rw [(eq_nil_of_readTokens hrest).1, List.append_nil, List.nil_append] at hts
  rwa [← hts] at hspell

theorem parse_eq_firstOf (s : String) : parse s = firstOf s (parseAll s) := by
  have hall := Stream.readAll_eq_andAll (Stream.ofText s)
  rw [parseAll, hall, parse, Stream.readExpr]
  rcases (Stream.ofText s).readFrom [] with ⟨_ | ⟨_ | _⟩, _⟩ <;> rfl

theorem exists_of_firstOf_eq_ok {s : String} {r : List Expr × Option ReadError} {e : Expr}
    (h : firstOf s r = .ok e) : ∃ es failure, r = (e :: es, failure) := by
  rcases r with ⟨_ | ⟨e', es⟩, failure⟩
  · cases failure <;> cases h
  · cases h
    exact ⟨es, failure, rfl⟩

/-- A text is read as its tokens are. -/
theorem parse_eq_of_drain {s : String} {ts : List Token} {failure : Option ReadError}
    (h : (Source.ofText s).drain = (ts, failure)) :
    parse s = firstOf s (readTokens failure [] ts) := by
  rw [parse_eq_firstOf, parseAll_eq_readTokens, h]

/-- What is read off a text is spelled by the first of its tokens. -/
theorem exists_spelling_of_parse {s : String} {e : Expr} (h : parse s = .ok e) :
    ∃ p r, (Source.ofText s).drain.1 = p ++ r ∧ Spelling p e := by
  rw [parse_eq_firstOf] at h
  obtain ⟨es, failure, hall⟩ := exists_of_firstOf_eq_ok h
  rw [parseAll_eq_readTokens] at hall
  exact exists_spelling_of_readTokens hall

/-- **Acceptance, and the place of a failure.** A text without oversized integers is read as its
quotes and parentheses say: without a failure if they are paired and balanced, and else with a
failure at the first stray parenthesis, at the last quote, or at the innermost unclosed parenthesis,
in this order. The expressions before a failure are those complete before its place, and those of a
text without a failure are spelled by all its tokens. The first of them is what the text is read as
when one expression is asked for. -/
theorem parseAll_eq_iff_verdict (s : String)
    (hs : ∀ t ∈ (Source.ofText s).drain.1, ¬ t.IsOversized) :
    (∀ r, (parseAll s).2 = r ↔ Verdict s.toList r) ∧
    (∀ e, (parseAll s).2 = some e → ∃ p, e.position = some p ∧ CompleteBefore s p (parseAll s).1) ∧
    ((parseAll s).2 = none → Spellings (Source.ofText s).drain.1 (parseAll s).1) ∧
    parse s = firstOf s (parseAll s) := by
  have hverdict : Verdict s.toList (parseAll s).2 := by
    rw [parseAll_eq_readTokens]
    exact verdict_readTokens (lexing_drain s.toList 0) reached_nil rfl hs
  refine ⟨fun r => ⟨fun hr => hr ▸ hverdict, hverdict.unique⟩, fun e he => ?_,
    spellings_of_parseAll, parse_eq_firstOf s⟩
  have hposition : ∃ p, e.position = some p := by
    rw [he] at hverdict
    cases hverdict <;> exact ⟨_, rfl⟩
  obtain ⟨p, hp⟩ := hposition
  exact ⟨p, hp, completeBefore_of_parseAll he hp⟩

/-- The parenthesis in the string does not count, and the failure is put down to the stray one
after it, not to the quote at the end, which has no partner either. -/
theorem parseAll_strayAndQuote :
    (∀ t ∈ (Source.ofText "x (a \")\") 1) \"").drain.1, ¬ t.IsOversized) ∧
      (parseAll "x (a \")\") 1) \"").2 = some (.unmatchedClosing 11) ∧
      CompleteBefore "x (a \")\") 1) \"" 11 (parseAll "x (a \")\") 1) \"").1 ∧
      parse "x (a \")\") 1) \"" = firstOf "x (a \")\") 1) \"" (parseAll "x (a \")\") 1) \"") := by
  have hdrain : (Source.ofText "x (a \")\") 1) \"").drain =
      ([⟨.word, "x", 0⟩, ⟨.opening, "(", 2⟩, ⟨.word, "a", 3⟩, ⟨.str, ")", 5⟩, ⟨.closing, ")", 8⟩,
        ⟨.word, "1", 10⟩, ⟨.closing, ")", 11⟩], some (.unterminatedString 13)) :=
    Source.drain_token rfl <| Source.drain_token rfl <| Source.drain_token rfl <|
      Source.drain_token rfl <| Source.drain_token rfl <| Source.drain_token rfl <|
      Source.drain_token rfl <| Source.drain_unterminated rfl
  have hwords : ∀ t ∈ (Source.ofText "x (a \")\") 1) \"").drain.1, ¬ t.IsOversized := by
    rw [hdrain]
    decide
  obtain ⟨hverdict, hcomplete, -, hfirst⟩ := parseAll_eq_iff_verdict "x (a \")\") 1) \"" hwords
  have hstray : (parseAll "x (a \")\") 1) \"").2 = some (.unmatchedClosing 11) :=
    (hverdict _).mpr (.stray (p := 11) (by decide) (by decide))
  obtain ⟨p, hp, hbefore⟩ := hcomplete _ hstray
  cases hp
  exact ⟨hwords, hstray, hbefore, hfirst⟩

end MiniLisp
