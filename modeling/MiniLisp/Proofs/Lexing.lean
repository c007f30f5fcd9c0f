import Mathlib.Data.List.TakeWhile
import MiniLisp.Proofs.ReadBack

/-!
# Tokens as they stand in a text

A text is its tokens with blanks around them, up to its end or to a quote that has no partner. Each
token stands at the offset that it holds, and nothing is lost between the tokens but blanks.

## Main definitions

* `Token.raw`: the token as it stands in a text
* `Token.IsLexeme`: the token can stand in a text
* `Lexing pos s ts failure`: the text `s` at offset `pos` is made of the tokens, with blanks around
  them and the failure after them

## Main results

* `fits_scan`: what a scan finds is where it says
* `lexing_drain`: the tokens of a text are those that it is made of
-/

namespace MiniLisp

/-- The token as it stands in a text. -/
def Token.raw (t : Token) : List Char :=
  match t.kind with
  | .str => '"' :: (t.value.toList ++ ['"'])
  | _ => t.value.toList

/-- The token can stand in a text: its value is one that its kind can have. -/
def Token.IsLexeme (t : Token) : Prop :=
  match t.kind with
  | .opening => t.value = "("
  | .closing => t.value = ")"
  | .str => '"' ∉ t.value.toList
  | .word => t.value ≠ "" ∧ ∀ c ∈ t.value.toList, isWordChar c = true
  | .other _ => False

/-- There are only blanks. -/
def IsBlanks (s : List Char) : Prop := ∀ c ∈ s, isBlank c = true

theorem isBlanks_nil : IsBlanks [] := List.forall_mem_nil _

theorem IsBlanks.cons {c : Char} {s : List Char} (hc : isBlank c = true) (hs : IsBlanks s) :
    IsBlanks (c :: s) :=
  List.forall_mem_cons.mpr ⟨hc, hs⟩

/-- What a scan found at the offset `pos` is what the text `s` begins with. -/
def Scan.Fits (pos : Nat) (s : List Char) : Scan → Prop
  | .finished => IsBlanks s
  | .unterminated p => ∃ gap body, IsBlanks gap ∧ '"' ∉ body ∧ s = gap ++ '"' :: body ∧
      p = pos + gap.length
  | .token t rest p => ∃ gap, IsBlanks gap ∧ t.IsLexeme ∧ t.pos = (pos + gap.length : Nat) ∧
      (t.kind = .word → EndsWord rest) ∧ s = gap ++ (t.raw ++ rest) ∧
      p = pos + gap.length + t.raw.length

/-- A blank before it moves what a scan found. -/
theorem Scan.Fits.blank {c : Char} (hc : isBlank c = true) {pos : Nat} {s : List Char} {r : Scan}
    (h : r.Fits (pos + 1) s) : r.Fits pos (c :: s) := by
  cases r with
  | finished => exact IsBlanks.cons hc h
  | unterminated p =>
    obtain ⟨gap, body, hgap, hbody, rfl, rfl⟩ := h
    refine ⟨c :: gap, body, hgap.cons hc, hbody, rfl, ?_⟩
    rw [List.length_cons, Nat.add_right_comm, Nat.add_assoc]
  | token t rest p =>
    obtain ⟨gap, hgap, ht, hpos, hends, rfl, rfl⟩ := h
    have hlength : pos + 1 + gap.length = pos + (c :: gap).length := by
      rw [List.length_cons, Nat.add_right_comm, Nat.add_assoc]
    rw [hlength] at hpos ⊢
    exact ⟨c :: gap, hgap.cons hc, ht, hpos, hends, rfl, rfl⟩

theorem endsWord_dropWhile (s : List Char) : EndsWord (s.dropWhile isWordChar) := by
  intro c hc
  have h := List.head?_dropWhile_not isWordChar s
  rw [Option.mem_def.mp hc] at h
  simpa using h

/-- A quote with what follows it. -/
theorem fits_scanString (s : List Char) (pos : Nat) : (scanString s pos).Fits pos ('"' :: s) := by
  have hsplit := List.takeWhile_append_dropWhile (p := (· != '"')) (l := s)
  have hbody : '"' ∉ s.takeWhile (· != '"') := by
    intro h
    have hq := List.mem_takeWhile_imp h
    simp at hq
  unfold scanString
  split
  · next hdrop =>
    rw [hdrop, List.append_nil] at hsplit
    exact ⟨[], s, isBlanks_nil, hsplit ▸ hbody, rfl, rfl⟩
  · next c rest hdrop =>
    have hc := List.head?_dropWhile_not (· != '"') s
    rw [hdrop] at hc
    have hc : c = '"' := by simpa using hc
    subst hc
    rw [hdrop] at hsplit
    refine ⟨[], isBlanks_nil, ?_, rfl, by simp, ?_, ?_⟩
    · simpa [Token.IsLexeme] using hbody
    · simp [Token.raw, hsplit]
    · simp [Token.raw]
      omega

/-- A word with what follows it. -/
theorem fits_scanWord {c : Char} (hc : isWordChar c = true) (s : List Char) (pos : Nat) :
    (scanWord c s pos).Fits pos (c :: s) := by
  refine ⟨[], isBlanks_nil, ?_, rfl, fun _ => endsWord_dropWhile s, ?_, ?_⟩
  · refine ⟨by simp, ?_⟩
    intro c' hc'
    rw [String.toList_ofList] at hc'
    rcases List.mem_cons.mp hc' with rfl | hc'
    · exact hc
    · exact List.mem_takeWhile_imp hc'
  · simp [Token.raw, List.takeWhile_append_dropWhile]
  · simp [Token.raw]

/-- What a scan finds is what the text begins with. -/
theorem fits_scan (s : List Char) (pos : Nat) : (scan s pos).Fits pos s := by
  induction s generalizing pos with
  | nil => exact isBlanks_nil
  | cons c s ih =>
    rw [scan]
    split
    · next hblank => exact (ih (pos + 1)).blank hblank
    split
    · next hc =>
      exact ⟨[], isBlanks_nil, rfl, rfl, by simp, by simp [hc, Token.raw], by simp [Token.raw]⟩
    split
    · next hc =>
      exact ⟨[], isBlanks_nil, rfl, rfl, by simp, by simp [hc, Token.raw], by simp [Token.raw]⟩
    split
    · next hc => exact hc ▸ fits_scanString s pos
    · next hblank hopen hclose hquote =>
      refine fits_scanWord ?_ s pos
      simp [isWordChar, hblank, hopen, hclose, hquote]

/-- The text at offset `pos` is made of the tokens, each with blanks before it, and of the failure
or of blanks after them. A word goes on as far as it can. -/
inductive Lexing : Nat → List Char → List Token → Option ReadError → Prop
  | finished {pos : Nat} {gap : List Char} : IsBlanks gap → Lexing pos gap [] none
  | unterminated {pos : Nat} {gap body : List Char} : IsBlanks gap → '"' ∉ body →
      Lexing pos (gap ++ '"' :: body) [] (some (.unterminatedString (pos + gap.length)))
  | token {pos : Nat} {gap rest : List Char} {t : Token} {ts : List Token}
      {failure : Option ReadError} : IsBlanks gap → t.IsLexeme →
      t.pos = (pos + gap.length : Nat) → (t.kind = .word → EndsWord rest) →
      Lexing (pos + gap.length + t.raw.length) rest ts failure →
      Lexing pos (gap ++ (t.raw ++ rest)) (t :: ts) failure

theorem Lexing.isLexeme {pos : Nat} {s : List Char} {ts : List Token} {failure : Option ReadError}
    (h : Lexing pos s ts failure) : ∀ t ∈ ts, t.IsLexeme := by
  induction h with
  | finished | unterminated => exact nofun
  | token _ ht _ _ _ ih => exact List.forall_mem_cons.mpr ⟨ht, ih⟩

theorem Source.drain_eq (src : Source) : src.drain =
    match src.next with
    | (.error e, _) => ([], some e)
    | (.ok none, _) => ([], none)
    | (.ok (some t), src') => (t :: src'.drain.1, src'.drain.2) := by
  rw [drain]
  split
  · next h => rw [h]
  · next h => rw [h]
  · next h => rw [h]

theorem Source.drain_finished {s : List Char} {pos : Nat} (h : scan s pos = .finished) :
    (text s pos).drain = ([], none) := by
  rw [drain_eq, next, h]

theorem Source.drain_unterminated {s : List Char} {pos p : Nat} (h : scan s pos = .unterminated p) :
    (text s pos).drain = ([], some (.unterminatedString p)) := by
  rw [drain_eq, next, h]

theorem Source.drain_token {s rest : List Char} {pos p : Nat} {t : Token} {ts : List Token}
    {failure : Option ReadError} (h : scan s pos = .token t rest p)
    (hrest : (text rest p).drain = (ts, failure)) : (text s pos).drain = (t :: ts, failure) := by
  rw [drain_eq, next, h]
  simp only [hrest]

/-- The tokens of a text, and the failure after them, are what the text is made of. -/
theorem lexing_drain (s : List Char) (pos : Nat) :
    Lexing pos s (Source.text s pos).drain.1 (Source.text s pos).drain.2 := by
  induction hlength : s.length using Nat.strong_induction_on generalizing s pos with
  | _ n ih =>
    have hfits := fits_scan s pos
    cases hscan : scan s pos with
    | finished =>
      rw [Source.drain_finished hscan]
      rw [hscan] at hfits
      exact .finished hfits
    | unterminated p =>
      rw [Source.drain_unterminated hscan]
      rw [hscan] at hfits
      obtain ⟨gap, body, hgap, hbody, rfl, rfl⟩ := hfits
      exact .unterminated hgap hbody
    | token t rest p =>
      rw [Source.drain_token hscan rfl]
      rw [hscan] at hfits
      have hlt : rest.length < n := hlength ▸ scan_length_lt hscan
      obtain ⟨gap, hgap, ht, hpos, hends, rfl, rfl⟩ := hfits
      exact .token hgap ht hpos hends (ih _ hlt rest _ rfl)

end MiniLisp
