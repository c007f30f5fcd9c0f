import Mathlib.Data.List.Chain
import MiniLisp.Proofs.Joining

/-!
# Nothing is lost between tokens

The tokens of a text, with the gaps between them and what is left after them, are the text again:
the gaps are blank, each token stands where it says, two words do not touch, and what is left is
nothing or a quote without a partner. No other tokens make up the text in this way. So whether a
text can be cut into tokens is told by the number of its quotes.

## Main definitions

* `Piece`: a token with the gap before it
* `assemble ps`: the text of the pieces
* `Leaves p tail failure`: what is left at the offset `p` is nothing, or a quote that is the failure
* `Pieced pos s ps gap tail failure`: the text `s` at offset `pos` is made up of the pieces, of the
  last gap, and of what is left

## Main results

* `lexing_iff_pieced`: a text is made of the tokens of the pieces that make it up
* `drain_failure_iff`: a text fails to be cut into tokens if its quotes are not paired
* `drain_ofText_iff`: the tokens of a text are those that make it up, and no others
-/

namespace MiniLisp

/-- A token with the gap before it. -/
structure Piece where
  gap : List Char
  token : Token

/-- The text of a piece. -/
def Piece.text (p : Piece) : List Char := p.gap ++ p.token.raw

/-- The text of the pieces, one after the other. -/
def assemble (ps : List Piece) : List Char := ps.flatMap Piece.text

@[simp] theorem assemble_nil : assemble [] = [] := rfl

@[simp] theorem assemble_cons (p : Piece) (ps : List Piece) :
    assemble (p :: ps) = p.gap ++ (p.token.raw ++ assemble ps) := by
  simp [assemble, Piece.text]

/-- What is left of a text at the offset `p`: nothing, or a quote with no other quote after it,
which is the failure. -/
inductive Leaves (p : Nat) : List Char → Option ReadError → Prop
  | nothing : Leaves p [] none
  | quote {body : List Char} : '"' ∉ body →
      Leaves p ('"' :: body) (some (.unterminatedString p))

/-- The text `s` at offset `pos` is made up of the pieces, of the last gap, and of what is left. -/
structure Pieced (pos : Nat) (s : List Char) (ps : List Piece) (gap tail : List Char)
    (failure : Option ReadError) : Prop where
  text : s = assemble ps ++ (gap ++ tail)
  gaps : ∀ p ∈ ps, IsBlanks p.gap
  last : IsBlanks gap
  lexeme : ∀ p ∈ ps, p.token.IsLexeme
  /-- Each token stands where the pieces before it and its own gap end. -/
  place : ∀ before p after, ps = before ++ p :: after →
    p.token.pos = ((pos + (assemble before).length + p.gap.length : Nat) : Int)
  /-- Two words do not touch. -/
  apart : ps.IsChain fun p q => p.token.kind = .word → q.token.kind = .word → q.gap ≠ []
  leaves : Leaves (pos + (assemble ps).length + gap.length) tail failure

/-! ## What ends a word -/

theorem IsBlanks.endsWord {gap : List Char} (h : IsBlanks gap) (hne : gap ≠ [])
    (rest : List Char) : EndsWord (gap ++ rest) := by
  obtain ⟨c, gap, rfl⟩ := List.exists_cons_of_ne_nil hne
  rintro _ ⟨⟩
  rw [isWordChar, h _ List.mem_cons_self]
  rfl

theorem Leaves.endsWord {p : Nat} {tail : List Char} {failure : Option ReadError}
    (h : Leaves p tail failure) : EndsWord tail := by
  cases h with
  | nothing => exact nofun
  | quote =>
    rintro _ ⟨⟩
    decide

/-- A token but a word ends a word before it. -/
theorem Token.IsLexeme.endsWord_iff {t : Token} (h : t.IsLexeme) (rest : List Char) :
    EndsWord (t.raw ++ rest) ↔ t.kind ≠ .word := by
  obtain ⟨c, cs, hraw⟩ := List.exists_cons_of_ne_nil h.raw_ne_nil
  have hc : t.raw.head? = some c := by rw [hraw, List.head?_cons]
  rw [MiniLisp.endsWord_iff, hraw, ne_eq, ← h.isWordChar_iff (.inl hc)]
  simp

section Pieced

variable {pos : Nat} {s gap tail : List Char} {ps : List Piece} {failure : Option ReadError}

/-- What is made up of pieces ends a word before it, unless it begins with a word. -/
theorem Pieced.endsWord_iff (h : Pieced pos s ps gap tail failure) :
    EndsWord s ↔ ∀ q ∈ ps.head?, q.token.kind = .word → q.gap ≠ [] := by
  rw [h.text]
  cases ps with
  | nil =>
    refine iff_of_true ?_ nofun
    by_cases hgap : gap = []
    · simpa [hgap] using h.leaves.endsWord
    · exact h.last.endsWord hgap tail
  | cons q ps =>
    have hq := List.mem_cons_self (a := q) (l := ps)
    rw [assemble_cons, List.append_assoc, List.append_assoc]
    by_cases hgap : q.gap = []
    · simp [hgap, (h.lexeme q hq).endsWord_iff]
    · simp [hgap, (h.gaps q hq).endsWord hgap]

/-! ## One piece more -/

/-- A piece before a text. -/
theorem Pieced.cons {q : Piece} (hgap : IsBlanks q.gap) (ht : q.token.IsLexeme)
    (hpos : q.token.pos = (pos + q.gap.length : Nat)) (hends : q.token.kind = .word → EndsWord s)
    (h : Pieced (pos + q.gap.length + q.token.raw.length) s ps gap tail failure) :
    Pieced pos (q.gap ++ (q.token.raw ++ s)) (q :: ps) gap tail failure where
  text := by simp [h.text]
  gaps := List.forall_mem_cons.mpr ⟨hgap, h.gaps⟩
  last := h.last
  lexeme := List.forall_mem_cons.mpr ⟨ht, h.lexeme⟩
  place before p after heq := by
    rcases List.cons_eq_append_iff.mp heq with ⟨rfl, hp⟩ | ⟨before', rfl, hps⟩
    · cases hp
      simpa using hpos
    · rw [h.place before' p after hps]
      simp only [assemble_cons, List.length_append]
      omega
  apart := List.isChain_cons.mpr
    ⟨fun p hp hq => h.endsWord_iff.mp (hends hq) p hp, h.apart⟩
  leaves := by
    have hleaves := h.leaves
    simp only [assemble_cons, List.length_append] at hleaves ⊢
    convert hleaves using 1
    omega

/-- What comes after the first piece of a text. -/
theorem Pieced.rest {q : Piece} (h : Pieced pos s (q :: ps) gap tail failure) :
    Pieced (pos + q.gap.length + q.token.raw.length) (assemble ps ++ (gap ++ tail)) ps gap tail
      failure where
  text := rfl
  gaps := (List.forall_mem_cons.mp h.gaps).2
  last := h.last
  lexeme := (List.forall_mem_cons.mp h.lexeme).2
  place before p after heq := by
    rw [h.place (q :: before) p after (by rw [heq, List.cons_append])]
    simp only [assemble_cons, List.length_append]
    omega
  apart := (List.isChain_cons.mp h.apart).2
  leaves := by
    have hleaves := h.leaves
    simp only [assemble_cons, List.length_append] at hleaves
    convert hleaves using 1
    omega

/-! ## Tokens and pieces -/

theorem Pieced.lexing (h : Pieced pos s ps gap tail failure) :
    Lexing pos s (ps.map Piece.token) failure := by
  induction ps generalizing pos s with
  | nil =>
    have htext : s = gap ++ tail := h.text
    have hleaves : Leaves (pos + gap.length) tail failure := h.leaves
    subst htext
    cases hleaves with
    | nothing =>
      rw [List.append_nil]
      exact .finished h.last
    | quote hbody => exact .unterminated h.last hbody
  | cons q ps ih =>
    have hrest := h.rest
    have hq := h.place [] q ps rfl
    have htext := h.text
    rw [assemble_cons, List.append_assoc, List.append_assoc] at htext
    rw [htext]
    refine .token (h.gaps q List.mem_cons_self) (h.lexeme q List.mem_cons_self) (by simpa using hq)
      (fun hword => ?_) (ih hrest)
    exact hrest.endsWord_iff.mpr fun p hp => (List.isChain_cons.mp h.apart).1 p hp hword

theorem Lexing.exists_pieced {ts : List Token} (h : Lexing pos s ts failure) :
    ∃ ps gap tail, Pieced pos s ps gap tail failure ∧ ps.map Piece.token = ts := by
  induction h with
  | finished hgap =>
    refine ⟨[], _, [], ⟨by simp, nofun, hgap, nofun, by simp, .nil, .nothing⟩, rfl⟩
  | unterminated hgap hbody =>
    exact ⟨[], _, _, ⟨rfl, nofun, hgap, nofun, by simp, .nil, .quote hbody⟩, rfl⟩
  | @token _ gap rest t ts failure hgap ht hpos hends _ ih =>
    obtain ⟨ps, gap', tail, hps, rfl⟩ := ih
    exact ⟨⟨gap, t⟩ :: ps, gap', tail, hps.cons (q := ⟨gap, t⟩) hgap ht hpos hends, rfl⟩

/-- A text is made of the tokens of the pieces that make it up. -/
theorem lexing_iff_pieced {ts : List Token} :
    Lexing pos s ts failure ↔
      ∃ ps gap tail, Pieced pos s ps gap tail failure ∧ ps.map Piece.token = ts :=
  ⟨Lexing.exists_pieced, fun ⟨_, _, _, h, hts⟩ => hts ▸ h.lexing⟩

theorem length_le_assemble (h : ∀ p ∈ ps, p.token.IsLexeme) : ps.length ≤ (assemble ps).length := by
  induction ps with
  | nil => exact Nat.le_refl _
  | cons q ps ih =>
    obtain ⟨hq, hps⟩ := List.forall_mem_cons.mp h
    have hraw := hq.length_raw_pos
    have hrest := ih hps
    simp only [assemble_cons, List.length_append, List.length_cons]
    omega

/-- There are at most as many pieces as characters. -/
theorem Pieced.length_le (h : Pieced pos s ps gap tail failure) : ps.length ≤ s.length := by
  rw [h.text, List.length_append]
  exact Nat.le_add_right_of_le (length_le_assemble h.lexeme)

/-! ## Quotes -/

theorem Token.IsLexeme.paired_raw {t : Token} (h : t.IsLexeme) : Paired t.raw := by
  cases hkind : t.kind with
  | opening => exact h.raw_opening hkind ▸ paired_of_not_mem (by decide)
  | closing => exact h.raw_closing hkind ▸ paired_of_not_mem (by decide)
  | str => exact (h.balanced (.inr hkind)).1
  | word => exact (h.balanced (.inl hkind)).1
  | other name => simp only [IsLexeme, hkind] at h

/-- The quotes are paired up to what is left. -/
theorem Pieced.paired (h : Pieced pos s ps gap tail failure) : Paired (assemble ps ++ gap) := by
  induction ps generalizing pos s with
  | nil => exact h.last.paired
  | cons q ps ih =>
    have hrest := ih h.rest
    have hgap := (h.gaps q List.mem_cons_self).paired
    have hraw := (h.lexeme q List.mem_cons_self).paired_raw
    rwa [assemble_cons, List.append_assoc, List.append_assoc, hgap.append_iff, hraw.append_iff]

/-- The failure is that the quotes are not paired, and is put down to the last one. -/
theorem Pieced.failure_iff (h : Pieced 0 s ps gap tail failure) :
    (failure = none ↔ Paired s) ∧
      ∀ e, failure = some e → ∃ p, e = .unterminatedString p ∧ IsLastQuote s p := by
  have htext : s = assemble ps ++ gap ++ tail := by rw [h.text, List.append_assoc]
  have hleaves : Leaves (assemble ps ++ gap).length tail failure := by
    have hleaves := h.leaves
    rwa [Nat.zero_add, ← List.length_append] at hleaves
  rw [htext, h.paired.append_iff]
  cases hleaves with
  | nothing => exact ⟨iff_of_true rfl paired_nil, nofun⟩
  | @quote body hbody =>
    refine ⟨iff_of_false nofun (not_paired_quote hbody), ?_⟩
    rintro _ ⟨⟩
    exact ⟨_, rfl, isLastQuote_append _ hbody⟩

end Pieced

/-- A text fails to be cut into tokens if its quotes are not paired, and this is put down to the
last one. -/
theorem drain_failure_iff (s : String) :
    ((Source.ofText s).drain.2 = none ↔ Paired s.toList) ∧
    ∀ e, (Source.ofText s).drain.2 = some e →
      ∃ p, e = .unterminatedString p ∧ IsLastQuote s.toList p := by
  obtain ⟨_, _, _, hps, -⟩ := lexing_iff_pieced.mp (lexing_drain s.toList 0)
  exact hps.failure_iff

/-- **Nothing is lost between tokens.** The tokens of a text, of which there are at most as many as
characters, and the failure after them make up the text, with blank gaps between them; and no other
tokens or failure do. There is a failure if and only if the number of quotes is odd, and it is put
down to the last quote. -/
theorem drain_ofText_iff (s : String) :
    (∀ ts failure, (Source.ofText s).drain = (ts, failure) ↔
      ∃ ps gap tail, Pieced 0 s.toList ps gap tail failure ∧ ps.map Piece.token = ts) ∧
    (Source.ofText s).drain.1.length ≤ s.length ∧
    ((Source.ofText s).drain.2 = none ↔ Paired s.toList) ∧
    ∀ e, (Source.ofText s).drain.2 = some e →
      ∃ p, e = .unterminatedString p ∧ IsLastQuote s.toList p := by
  have hlexing := lexing_drain s.toList 0
  obtain ⟨ps, gap, tail, hps, hts⟩ := lexing_iff_pieced.mp hlexing
  refine ⟨fun ts failure => ?_, ?_, drain_failure_iff s⟩
  · rw [← lexing_iff_pieced]
    constructor
    · intro h
      have hts := congrArg Prod.fst h
      have hfailure := congrArg Prod.snd h
      subst hts hfailure
      exact hlexing
    · exact Lexing.drain_eq
  · rw [show (Source.ofText s).drain.1 = ps.map Piece.token from hts.symm, List.length_map,
      ← String.length_toList]
    exact hps.length_le

end MiniLisp
