import MiniLisp.Proofs.WholeText

/-!
# Texts one after the other

Two texts can be read one after the other or as one text. The tokens are the same either way, but
for the offsets of those of the second text, unless the cut goes through a word; and if the first
text is read without a failure, so are the expressions.

## Main definitions

* `Glued a b`: the cut between the texts goes through a word
* `Token.move φ`, `ReadError.move φ`: a token and a failure put down to the place that `φ` says
* `Token.shift k`, `ReadError.shift k`: a token and a failure put down to a place `k` further on

## Main results

* `Lexing.append`: the tokens of two texts, one after the other
* `Lexing.drain_eq`: a text is made of its tokens in one way only
* `readTokens_append`, `readTokens_move`: reading tokens one after the other, and in other places
* `parseAll_append`: the expressions of two texts, one after the other
* `parseAll_failure_worded`: a failure names its place at the end of its message
-/

namespace MiniLisp

/-! ## Places further on -/

/-- The token, standing `k` further on. -/
def Token.shift (k : Nat) (t : Token) : Token := { t with pos := t.pos + k }

/-- The failure, put down to a place `k` further on. -/
def ReadError.shift (k : Nat) : ReadError → ReadError
  | unterminatedString pos => unterminatedString (pos + k)
  | unterminatedList pos => unterminatedList (pos + k)
  | unmatchedClosing pos => unmatchedClosing (pos + k)
  | unknownToken kind value pos => unknownToken kind value (pos + k)
  | emptyInput length => emptyInput (length + k)
  | oversizedInteger => oversizedInteger

section Move

variable (φ : Int → Int)

/-- The token, standing at the place that `φ` says. -/
def Token.move (t : Token) : Token := { t with pos := φ t.pos }

/-- The failure, put down to the place that `φ` says. -/
def ReadError.move : ReadError → ReadError
  | unterminatedString pos => unterminatedString (φ pos).toNat
  | unterminatedList pos => unterminatedList (φ pos)
  | unmatchedClosing pos => unmatchedClosing (φ pos)
  | unknownToken kind value pos => unknownToken kind value (φ pos)
  | emptyInput length => emptyInput (φ length).toNat
  | oversizedInteger => oversizedInteger

/-- The open list, opened at the place that `φ` says. -/
def OpenList.move (l : OpenList) : OpenList := { l with pos := φ l.pos }

/-- The step, with all places as `φ` says. -/
def Step.move : Step → Step
  | refuse e => refuse (e.move φ)
  | fail e => fail (e.move φ)
  | complete e => complete e
  | proceed opened => proceed (opened.map (OpenList.move φ))

@[simp] theorem Token.move_kind (t : Token) : (t.move φ).kind = t.kind := rfl

@[simp] theorem Token.move_value (t : Token) : (t.move φ).value = t.value := rfl

end Move

theorem Token.move_add (k : Nat) : move (· + (k : Int)) = shift k := rfl

theorem ReadError.move_add (k : Nat) : move (· + (k : Int)) = shift k := by
  have hplace : ∀ n : Nat, ((n : Int) + k).toNat = n + k := fun n => by omega
  funext e
  cases e <;> simp only [move, shift, hplace]

@[simp] theorem Token.shift_pos (k : Nat) (t : Token) : (t.shift k).pos = t.pos + k := rfl

theorem Token.isLexeme_shift {k : Nat} {t : Token} (h : t.IsLexeme) : (t.shift k).IsLexeme := h

/-! ## Tokens -/

/-- The cut between the texts goes through a word: the first ends and the second begins with a
character that can be part of one. -/
def Glued (a b : List Char) : Prop :=
  (∃ c ∈ a.getLast?, isWordChar c = true) ∧ ∃ c ∈ b.head?, isWordChar c = true

instance (a b : List Char) : Decidable (Glued a b) :=
  @instDecidableAnd _ _ (Option.decidableExistsMem _) (Option.decidableExistsMem _)

theorem endsWord_iff {b : List Char} :
    EndsWord b ↔ ¬ ∃ c ∈ b.head?, isWordChar c = true := by
  simp [EndsWord]

theorem Glued.ne_nil {a b : List Char} (h : Glued a b) : a ≠ [] := by
  rintro rfl
  obtain ⟨_, ⟨⟩, _⟩ := h.1

/-- What a text ends with is what its last part ends with. -/
theorem glued_append_iff {a c : List Char} (hc : c ≠ []) (b : List Char) :
    Glued (a ++ c) b ↔ Glued c b := by
  rw [Glued, Glued, List.getLast?_append, List.getLast?_eq_some_getLast hc, Option.some_or]

theorem Token.IsLexeme.raw_ne_nil {t : Token} (h : t.IsLexeme) : t.raw ≠ [] :=
  List.ne_nil_of_length_pos h.length_raw_pos

/-- A token begins and ends with a character of a word if it is one. -/
theorem Token.IsLexeme.isWordChar_iff {t : Token} (h : t.IsLexeme) {c : Char}
    (hc : t.raw.head? = some c ∨ t.raw.getLast? = some c) :
    isWordChar c = true ↔ t.kind = .word := by
  cases hkind : t.kind with
  | opening =>
    obtain rfl : '(' = c := by simpa [h.raw_opening hkind] using hc
    decide
  | closing =>
    obtain rfl : ')' = c := by simpa [h.raw_closing hkind] using hc
    decide
  | str =>
    rw [raw, hkind, ← List.cons_append, List.getLast?_concat] at hc
    obtain rfl : '"' = c := by simpa using hc
    decide
  | word =>
    simp only [IsLexeme, hkind] at h
    rw [raw, hkind] at hc
    exact iff_of_true (h.2 c (hc.elim List.mem_of_head? List.mem_of_getLast?)) rfl
  | other name => simp only [IsLexeme, hkind] at h

/-- Only a word is cut through at its end, by what goes on with it. -/
theorem Token.IsLexeme.glued_iff {t : Token} (h : t.IsLexeme) (b : List Char) :
    Glued t.raw b ↔ t.kind = .word ∧ ¬ EndsWord b := by
  have hlast := List.getLast?_eq_some_getLast h.raw_ne_nil
  rw [Glued, endsWord_iff, not_not, hlast]
  simp [h.isWordChar_iff (.inr hlast)]

theorem EndsWord.append {a b : List Char} (ha : EndsWord a) (hb : a = [] → EndsWord b) :
    EndsWord (a ++ b) := by
  cases a with
  | nil => exact hb rfl
  | cons c a => exact ha

namespace Lexing

variable {pos : Nat} {s : List Char} {ts : List Token} {failure : Option ReadError}

/-- Blanks before a text. -/
theorem blanks {gap : List Char} (hgap : IsBlanks gap)
    (h : Lexing (pos + gap.length) s ts failure) : Lexing pos (gap ++ s) ts failure := by
  have happend : ∀ {gap'}, IsBlanks gap' → IsBlanks (gap ++ gap') :=
    fun hgap' => List.forall_mem_append.mpr ⟨hgap, hgap'⟩
  have hlength : ∀ gap' : List Char,
      pos + gap.length + gap'.length = pos + (gap ++ gap').length := fun gap' => by
    rw [List.length_append, Nat.add_assoc]
  cases h with
  | finished hgap' => exact .finished (happend hgap')
  | unterminated hgap' hbody =>
    rw [hlength, ← List.append_assoc]
    exact .unterminated (happend hgap') hbody
  | token hgap' ht hpos hends hrest =>
    rw [hlength] at hpos hrest
    rw [← List.append_assoc]
    exact .token (happend hgap') ht hpos hends hrest

/-- The tokens of two texts, one after the other, if the cut does not go through a word. -/
theorem append {a b : List Char} {us : List Token} (ha : Lexing pos a ts none)
    (hcut : ¬ Glued a b) (hb : Lexing (pos + a.length) b us failure) :
    Lexing pos (a ++ b) (ts ++ us) failure := by
  generalize hnone : (none : Option ReadError) = f at ha
  induction ha with
  | finished hgap => exact blanks hgap hb
  | unterminated => cases hnone
  | @token pos gap rest t ts f hgap ht hpos hends _ ih =>
    subst hnone
    have hlength : pos + (gap ++ (t.raw ++ rest)).length =
        pos + gap.length + t.raw.length + rest.length := by
      simp only [List.length_append, Nat.add_assoc]
    have hrest : Lexing (pos + gap.length + t.raw.length) (rest ++ b) (ts ++ us) failure := by
      rw [hlength] at hb
      refine ih (fun hglued => hcut ?_) hb rfl
      rw [← List.append_assoc]
      exact (glued_append_iff hglued.ne_nil b).mpr hglued
    rw [List.append_assoc, List.append_assoc, List.cons_append]
    refine .token hgap ht hpos (fun hkind => (hends hkind).append fun hnil => ?_) hrest
    subst hnil
    rw [List.append_nil, glued_append_iff ht.raw_ne_nil, ht.glued_iff] at hcut
    exact not_not.mp fun hends => hcut ⟨hkind, hends⟩

/-- The tokens of a text that stands further on. -/
theorem shift (h : Lexing pos s ts failure) (k : Nat) :
    Lexing (pos + k) s (ts.map (Token.shift k)) (failure.map (ReadError.shift k)) := by
  induction h with
  | finished hgap => exact .finished hgap
  | @unterminated pos gap body hgap hbody =>
    have hpos : pos + gap.length + k = pos + k + gap.length := Nat.add_right_comm _ _ _
    have h : Lexing (pos + k) _ _ _ := unterminated hgap hbody
    rwa [← hpos] at h
  | @token pos gap rest t ts failure hgap ht htpos hends _ ih =>
    have hpos : pos + gap.length + t.raw.length + k = pos + k + gap.length + t.raw.length := by
      omega
    rw [hpos] at ih
    refine .token (t := t.shift k) hgap (Token.isLexeme_shift ht) ?_ hends ih
    rw [Token.shift_pos, htpos]
    push_cast
    omega

end Lexing

/-! ## A text is made of its tokens in one way -/

theorem scan_gap {gap : List Char} (hgap : IsBlanks gap) (s : List Char) (pos : Nat) :
    scan (gap ++ s) pos = scan s (pos + gap.length) := by
  induction gap generalizing pos with
  | nil => rfl
  | cons c gap ih =>
    rw [List.cons_append, scan_blank (hgap c List.mem_cons_self),
      ih (fun c' hc' => hgap c' (List.mem_cons_of_mem _ hc')), List.length_cons, Nat.add_assoc,
      Nat.add_comm 1]

theorem scan_unterminated {body : List Char} (hbody : '"' ∉ body) (pos : Nat) :
    scan ('"' :: body) pos = .unterminated pos := by
  have hquote : ∀ c ∈ body, (c != '"') = true := by
    intro c hc
    rw [bne_iff_ne]
    rintro rfl
    exact hbody hc
  have hblank : isBlank '"' = false := by decide
  rw [scan, hblank, scanString, List.dropWhile_eq_nil_iff.mpr hquote]
  rfl

/-- A token that stands at the beginning of a text is found there. -/
theorem scan_lexeme {t : Token} (ht : t.IsLexeme) {pos : Nat} (hpos : t.pos = pos)
    {rest : List Char} (hends : t.kind = .word → EndsWord rest) :
    scan (t.raw ++ rest) pos = .token t rest (pos + t.raw.length) := by
  have heta : (⟨t.kind, t.value, pos⟩ : Token) = t := by rw [← hpos]
  have hparenthesis : ∀ c, isBlank c = false → scan ([c] ++ rest) pos =
      if c = '(' then .token ⟨.opening, "(", pos⟩ rest (pos + 1)
      else if c = ')' then .token ⟨.closing, ")", pos⟩ rest (pos + 1)
      else if c = '"' then scanString rest pos
      else scanWord c rest pos := fun c hc => by
    rw [List.singleton_append, scan, hc]
    rfl
  cases hkind : t.kind with
  | opening =>
    have hvalue : t.value = "(" := by simpa only [Token.IsLexeme, hkind] using ht
    rw [hkind, hvalue] at heta
    rw [ht.raw_opening hkind, hparenthesis _ (by decide), if_pos rfl, heta]
    rfl
  | closing =>
    have hvalue : t.value = ")" := by simpa only [Token.IsLexeme, hkind] using ht
    rw [hkind, hvalue] at heta
    rw [ht.raw_closing hkind, hparenthesis _ (by decide), if_neg (by decide), if_pos rfl, heta]
    rfl
  | str =>
    simp only [Token.IsLexeme, hkind] at ht
    have hscan := scan_string ht rest pos
    rw [hkind] at heta
    rw [String.ofList_toList, heta] at hscan
    simpa [Token.raw, hkind, Nat.add_assoc] using hscan
  | word =>
    simp only [Token.IsLexeme, hkind] at ht
    have hscan := scan_word (fun h => ht.1 (String.toList_eq_nil_iff.mp h)) ht.2 (hends hkind) pos
    rw [hkind] at heta
    rw [String.ofList_toList, heta] at hscan
    simpa only [Token.raw, hkind] using hscan
  | other name => simp only [Token.IsLexeme, hkind] at ht

/-- A text is made of its tokens in one way only. -/
theorem Lexing.drain_eq {pos : Nat} {s : List Char} {ts : List Token}
    {failure : Option ReadError} (h : Lexing pos s ts failure) :
    (Source.text s pos).drain = (ts, failure) := by
  induction h with
  | @finished pos gap hgap =>
    refine Source.drain_finished ?_
    have hscan := scan_gap hgap [] pos
    rwa [List.append_nil] at hscan
  | @unterminated pos gap body hgap hbody =>
    refine Source.drain_unterminated ?_
    rw [scan_gap hgap, scan_unterminated hbody]
  | @token pos gap rest t ts failure hgap ht hpos hends _ ih =>
    refine Source.drain_token ?_ ih
    rw [scan_gap hgap, scan_lexeme ht hpos hends]

/-- The tokens of two texts, one after the other. -/
theorem drain_append {a b : String} {ts us : List Token} {failure : Option ReadError}
    (ha : (Source.ofText a).drain = (ts, none)) (hb : (Source.ofText b).drain = (us, failure))
    (hcut : ¬ Glued a.toList b.toList) :
    (Source.ofText (a ++ b)).drain =
      (ts ++ us.map (Token.shift a.length), failure.map (ReadError.shift a.length)) := by
  have hlexa := lexing_drain a.toList 0
  have hlexb := lexing_drain b.toList 0
  rw [show (Source.text a.toList 0).drain = (ts, none) from ha] at hlexa
  rw [show (Source.text b.toList 0).drain = (us, failure) from hb] at hlexb
  rw [Source.ofText, String.toList_append, ← String.length_toList]
  exact (hlexa.append hcut (hlexb.shift a.toList.length)).drain_eq

/-! ## Expressions -/

section Move

variable (φ : Int → Int)

theorem supply_move (e : Expr) (opened : List OpenList) :
    supply e (opened.map (OpenList.move φ)) = (supply e opened).move φ := by
  cases opened <;> rfl

theorem step_move (t : Token) (opened : List OpenList) :
    step (t.move φ) (opened.map (OpenList.move φ)) = (step t opened).move φ := by
  unfold step
  rw [Token.move_kind, Token.move_value]
  cases t.kind with
  | word =>
    simp only
    cases hword : Atom.ofWord t.value with
    | ok a => exact supply_move φ _ opened
    | error e =>
      obtain rfl := ofWord_error hword
      rfl
  | str => exact supply_move φ _ opened
  | opening => rfl
  | closing =>
    cases opened with
    | nil => rfl
    | cons l opened => exact supply_move φ _ opened
  | other name => rfl

/-- Tokens in other places spell the same expressions, and the failure is put down to its place
among these. -/
theorem readTokens_move (failure : Option ReadError) (opened : List OpenList) (ts : List Token) :
    readTokens (failure.map (ReadError.move φ)) (opened.map (OpenList.move φ))
        (ts.map (Token.move φ)) =
      ((readTokens failure opened ts).1,
        (readTokens failure opened ts).2.map (ReadError.move φ)) := by
  induction ts generalizing opened with
  | nil => cases failure <;> cases opened <;> rfl
  | cons t ts ih =>
    rw [List.map_cons, readTokens_cons, readTokens_cons, step_move]
    cases step t opened with
    | refuse e | fail e => rfl
    | proceed opened' => exact ih opened'
    | complete e =>
      have hrest := ih []
      rw [List.map_nil] at hrest
      simp only [Step.move, resumeTokens, hrest]

end Move

/-- Tokens that are read to the end without a failure may be followed by others. -/
theorem readTokens_append {failure : Option ReadError} {opened : List OpenList} {ts : List Token}
    {es : List Expr} (h : readTokens failure opened ts = (es, none)) (failure' : Option ReadError)
    (us : List Token) :
    failure = none ∧ readTokens failure' opened (ts ++ us) =
      (es ++ (readTokens failure' [] us).1, (readTokens failure' [] us).2) := by
  induction ts generalizing opened es with
  | nil =>
    obtain ⟨rfl, hend⟩ := Prod.mk.inj h
    cases failure with
    | some e => cases hend
    | none =>
      cases opened with
      | cons l opened => cases hend
      | nil => exact ⟨rfl, rfl⟩
  | cons t ts ih =>
    rw [readTokens_cons] at h
    rw [List.cons_append, readTokens_cons]
    cases hstep : step t opened with
    | refuse e | fail e =>
      rw [hstep] at h
      cases h
    | proceed opened' =>
      rw [hstep] at h
      exact ih h
    | complete e =>
      rw [hstep, resumeTokens] at h
      obtain ⟨rfl, hend⟩ := Prod.mk.inj h
      obtain ⟨hfailure, hrest⟩ := ih (Prod.ext rfl hend)
      refine ⟨hfailure, ?_⟩
      rw [resumeTokens, hrest]
      rfl

/-- The expressions of two texts, one after the other, if the first is read without a failure and
the cut does not go through a word. -/
theorem parseAll_append {a b : String} (ha : (parseAll a).2 = none)
    (hcut : ¬ Glued a.toList b.toList) :
    parseAll (a ++ b) = ((parseAll a).1 ++ (parseAll b).1,
      (parseAll b).2.map (ReadError.shift a.length)) := by
  have hread : readTokens (Source.ofText a).drain.2 [] (Source.ofText a).drain.1 =
      ((parseAll a).1, none) := by
    rw [← parseAll_eq_readTokens]
    exact Prod.ext rfl ha
  have hnone := (readTokens_append hread none []).1
  have hdrain := drain_append (Prod.ext rfl hnone) rfl hcut
  have hshift := readTokens_move (· + (a.length : Int)) (Source.ofText b).drain.2 []
    (Source.ofText b).drain.1
  rw [← parseAll_eq_readTokens, Token.move_add, ReadError.move_add, List.map_nil] at hshift
  rw [parseAll_eq_readTokens, hdrain, (readTokens_append hread _ _).2, hshift]

/-! ## Messages -/

/-- The failure is put down to the place `p`, and its message ends with it. -/
def ReadError.Worded (words : String) (p : Int) (e : ReadError) : Prop :=
  e.position = some p ∧ e.message = words ++ intText p

theorem natText_eq (n : Nat) : natText n = intText n := by
  have hsign : decide ((n : Int) < 0) = false :=
    decide_eq_false (Int.not_lt.mpr (Int.natCast_nonneg n))
  rw [intText, hsign]
  rfl

/-- What a token of a text can be refused for. -/
theorem step_failure {t : Token} (ht : t.IsLexeme) {opened : List OpenList} {e : ReadError}
    (h : step t opened = .refuse e ∨ step t opened = .fail e) :
    e = .oversizedInteger ∨ e = .unmatchedClosing t.pos := by
  have hsupply : ∀ e' opened', ¬ (supply e' opened' = .refuse e ∨ supply e' opened' = .fail e) := by
    intro e' opened'
    cases opened' <;> simp [supply]
  unfold step at h
  cases hkind : t.kind with
  | word =>
    simp only [hkind] at h
    cases hword : Atom.ofWord t.value with
    | ok a =>
      rw [hword] at h
      exact absurd h (hsupply _ _)
    | error e' =>
      rw [hword] at h
      simp only [reduceCtorEq, Step.fail.injEq, false_or] at h
      subst h
      exact .inl (ofWord_error hword)
  | str =>
    simp only [hkind] at h
    exact absurd h (hsupply _ _)
  | opening =>
    simp [hkind] at h
  | closing =>
    simp only [hkind] at h
    cases opened with
    | nil => exact .inr (by simpa [eq_comm] using h)
    | cons l opened => exact absurd h (hsupply _ _)
  | other name => simp only [Token.IsLexeme, hkind] at ht

/-- A failure to read a text is an integer that is too long, or its message names its place. -/
theorem readTokens_failure_worded {failure : Option ReadError} {opened : List OpenList}
    {ts : List Token} {e : ReadError} (hts : ∀ t ∈ ts, t.IsLexeme)
    (hfailure : ∀ e, failure = some e → ∃ p, e = .unterminatedString p)
    (h : (readTokens failure opened ts).2 = some e) :
    e = .oversizedInteger ∨ ∃ words p, e.Worded words p ∧
      ∀ k : Nat, (e.shift k).Worded words (p + k) := by
  induction ts generalizing opened with
  | nil =>
    cases failure with
    | some e' =>
      cases h
      obtain ⟨p, rfl⟩ := hfailure e rfl
      have hworded : ∀ p : Nat, (ReadError.unterminatedString p).Worded
          "Unterminated string literal at position " p :=
        fun p => ⟨rfl, by rw [← natText_eq]; rfl⟩
      exact .inr ⟨_, p, hworded p, fun k => hworded (p + k)⟩
    | none =>
      cases opened with
      | nil => cases h
      | cons l opened =>
        cases h
        exact .inr ⟨"Unterminated list opened at position ", l.pos, ⟨rfl, rfl⟩,
          fun k => ⟨rfl, rfl⟩⟩
  | cons t ts ih =>
    have hts' : ∀ t' ∈ ts, t'.IsLexeme := fun t' h => hts t' (List.mem_cons_of_mem _ h)
    have hstep : ∀ e', step t opened = .refuse e' ∨ step t opened = .fail e' →
        e' = .oversizedInteger ∨ ∃ words p, e'.Worded words p ∧
          ∀ k : Nat, (e'.shift k).Worded words (p + k) := by
      intro e' he'
      rcases step_failure (hts t List.mem_cons_self) he' with rfl | rfl
      · exact .inl rfl
      · exact .inr ⟨"Unmatched ')' at position ", t.pos, ⟨rfl, rfl⟩, fun k => ⟨rfl, rfl⟩⟩
    rw [readTokens_cons] at h
    cases hst : step t opened with
    | refuse e' =>
      rw [hst] at h
      cases h
      exact hstep e (.inl hst)
    | fail e' =>
      rw [hst] at h
      cases h
      exact hstep e (.inr hst)
    | complete e' =>
      rw [hst] at h
      exact ih hts' h
    | proceed opened' =>
      rw [hst] at h
      exact ih hts' h

theorem Lexing.failure_eq {pos : Nat} {s : List Char} {ts : List Token}
    {failure : Option ReadError} (h : Lexing pos s ts failure) :
    ∀ e, failure = some e → ∃ p, e = .unterminatedString p := by
  induction h with
  | finished => exact nofun
  | unterminated =>
    rintro _ ⟨⟩
    exact ⟨_, rfl⟩
  | token _ _ _ _ _ ih => exact ih

/-- A failure to read a text is an integer that is too long, or its message names its place. -/
theorem parseAll_failure_worded {s : String} {e : ReadError} (h : (parseAll s).2 = some e) :
    e = .oversizedInteger ∨ ∃ words p, e.Worded words p ∧
      ∀ k : Nat, (e.shift k).Worded words (p + k) := by
  have hlexing := lexing_drain s.toList 0
  rw [parseAll_eq_readTokens] at h
  exact readTokens_failure_worded hlexing.isLexeme hlexing.failure_eq h

end MiniLisp
