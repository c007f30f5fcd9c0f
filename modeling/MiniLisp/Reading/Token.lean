import MiniLisp.Text.Blank

/-!
# Tokens

Program text is a sequence of tokens with blanks between them: parentheses, strings between double
quotes, and words. A token knows where it stands in the text. Tokens may also come from elsewhere
than a text, and then be of kinds that the reader does not know, and stand anywhere.

## Main definitions

* `TokenKind`, `Token`: the tokens
* `isWordChar c`: the character `c` may be part of a word
* `scan s pos`: the first token of the text `s`, which stands at offset `pos`

## Main results

* `scan_length_lt`: less text is left after a token
-/

namespace MiniLisp

/-- The kinds of tokens. -/
inductive TokenKind where
  | opening
  | closing
  | str
  | word
  /-- A kind that the reader does not know, by its name. -/
  | other (name : String)
deriving DecidableEq

/-- A token: its kind, its text (for a string, what stands between the quotes), and the offset at
which it stands. -/
structure Token where
  kind : TokenKind
  value : String
  pos : Int
deriving DecidableEq

/-- A word goes on until a blank, a parenthesis or a double quote. -/
def isWordChar (c : Char) : Bool := !isBlank c && c != '(' && c != ')' && c != '"'

/-- What a text begins with, blanks apart. -/
inductive Scan where
  /-- There are only blanks. -/
  | finished
  /-- A string begins at the offset and does not end. -/
  | unterminated (pos : Nat)
  /-- A token, the text after it, and the offset of that text. -/
  | token (t : Token) (rest : List Char) (pos : Nat)
deriving DecidableEq

/-- The string whose opening quote stands just before `s`, at offset `pos`. -/
def scanString (s : List Char) (pos : Nat) : Scan :=
  let body := s.takeWhile (· != '"')
  match s.dropWhile (· != '"') with
  | [] => .unterminated pos
  | _ :: rest => .token ⟨.str, String.ofList body, pos⟩ rest (pos + body.length + 2)

/-- The word that begins with `c` at offset `pos` and goes on in `s`. -/
def scanWord (c : Char) (s : List Char) (pos : Nat) : Scan :=
  let word := c :: s.takeWhile isWordChar
  .token ⟨.word, String.ofList word, pos⟩ (s.dropWhile isWordChar) (pos + word.length)

/-- The first token of the text `s`, which stands at offset `pos`. -/
def scan : List Char → Nat → Scan
  | [], _ => .finished
  | c :: s, pos =>
    if isBlank c then scan s (pos + 1)
    else if c = '(' then .token ⟨.opening, "(", pos⟩ s (pos + 1)
    else if c = ')' then .token ⟨.closing, ")", pos⟩ s (pos + 1)
    else if c = '"' then scanString s pos
    else scanWord c s pos

theorem length_dropWhile_le (p : Char → Bool) (s : List Char) :
    (s.dropWhile p).length ≤ s.length :=
  (List.dropWhile_sublist p).length_le

/-- Less text is left after a token. -/
theorem scan_length_lt {s : List Char} {pos : Nat} {t : Token} {rest : List Char} {pos' : Nat}
    (h : scan s pos = .token t rest pos') : rest.length < s.length := by
  induction s generalizing pos with
  | nil => simp [scan] at h
  | cons c s ih =>
    simp only [scan] at h
    split at h
    · have := ih h
      simp only [List.length_cons]
      omega
    split at h
    · cases h; simp
    split at h
    · cases h; simp
    split at h
    · simp only [scanString] at h
      split at h
      · simp at h
      · next hs =>
        have hl := length_dropWhile_le (· != '"') s
        rw [hs] at hl
        cases h
        simp only [List.length_cons] at hl ⊢
        omega
    · simp only [scanWord] at h
      have hl := length_dropWhile_le isWordChar s
      cases h
      simp only [List.length_cons]
      omega

end MiniLisp
