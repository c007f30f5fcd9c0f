import MiniLisp.Reading.Token
import MiniLisp.Reading.Error

/-!
# Token streams

A stream delivers tokens one by one, from a text or from a sequence of tokens. It can look at the
next token without delivering it; it then holds that token, and never more than that one. A text
is scanned only as far as tokens are asked for, and a failure to scan is reported once, after
which the stream is at its end.

## Main definitions

* `Source`: where tokens come from
* `Source.next`: the next token of a source, and what is left of the source
* `Source.drain`: all the tokens of a source, and the failure that cut them short
* `Stream`: a source and the token held ahead of it
* `Stream.peek`, `Stream.advance`: the next token, kept or delivered

## Main results

* `Source.size_next_lt`, `Stream.size_advance_peek_lt`: delivering a token makes progress
-/

namespace MiniLisp

/-- Where tokens come from. -/
inductive Source where
  /-- The text that is left to scan, and its offset. -/
  | text (rest : List Char) (pos : Nat)
  | tokens (rest : List Token)

namespace Source

/-- A source at its end. -/
abbrev exhausted : Source := tokens []

/-- The tokens of a text. -/
def ofText (s : String) : Source := text s.toList 0

/-- A bound on the number of tokens left. -/
def size : Source → Nat
  | text rest _ => rest.length
  | tokens rest => rest.length

/-- The next token of a source, if there is one, and what is left of the source. -/
def next : Source → Except ReadError (Option Token) × Source
  | tokens [] => (.ok none, exhausted)
  | tokens (t :: ts) => (.ok (some t), tokens ts)
  | text s pos =>
    match scan s pos with
    | .finished => (.ok none, exhausted)
    | .unterminated p => (.error (.unterminatedString p), exhausted)
    | .token t rest p => (.ok (some t), text rest p)

/-- Less is left of a source after a token. -/
theorem size_next_lt {s s' : Source} {t : Token} (h : s.next = (.ok (some t), s')) :
    s'.size < s.size := by
  cases s with
  | tokens ts =>
    cases ts with
    | nil => simp [next] at h
    | cons t ts => simp only [next, Prod.mk.injEq] at h; obtain ⟨-, rfl⟩ := h; simp [size]
  | text s pos =>
    simp only [next] at h
    split at h
    · simp at h
    · simp at h
    · next hs =>
      simp only [Prod.mk.injEq] at h
      obtain ⟨-, rfl⟩ := h
      exact scan_length_lt hs

/-- All the tokens of a source, and the failure that cut them short, if there is one. -/
def drain (s : Source) : List Token × Option ReadError :=
  match _ : s.next with
  | (.error e, _) => ([], some e)
  | (.ok none, _) => ([], none)
  | (.ok (some t), s') =>
    let r := drain s'
    (t :: r.1, r.2)
termination_by s.size
decreasing_by exact size_next_lt ‹_›

end Source

/-- A source of tokens and the token held ahead of it. -/
structure Stream where
  held : Option Token
  source : Source

namespace Stream

/-- The stream of the tokens of a text. -/
def ofText (s : String) : Stream := ⟨none, .ofText s⟩

/-- The stream of the given tokens. -/
def ofTokens (ts : List Token) : Stream := ⟨none, .tokens ts⟩

/-- A bound on the number of tokens to be delivered. -/
def size (s : Stream) : Nat := s.held.toList.length + s.source.size

/-- The next token, held and not delivered. -/
def peek (s : Stream) : Except ReadError (Option Token) × Stream :=
  match s.held with
  | some t => (.ok (some t), s)
  | none =>
    match s.source.next with
    | (.ok (some t), source) => (.ok (some t), ⟨some t, source⟩)
    | (r, source) => (r, ⟨none, source⟩)

/-- The next token, delivered. -/
def advance (s : Stream) : Except ReadError (Option Token) × Stream :=
  match s.held with
  | some t => (.ok (some t), ⟨none, s.source⟩)
  | none => (s.source.next.1, ⟨none, s.source.next.2⟩)

/-- To deliver the token that was looked at makes progress. -/
theorem size_advance_peek_lt {s s' : Stream} {t : Token} (h : s.peek = (.ok (some t), s')) :
    s'.advance.2.size < s.size := by
  obtain ⟨held, source⟩ := s
  cases held with
  | some t' =>
    simp only [peek, Prod.mk.injEq] at h
    obtain ⟨-, rfl⟩ := h
    simp [advance, size]
  | none =>
    simp only [peek] at h
    split at h
    · next hn =>
      simp only [Prod.mk.injEq] at h
      obtain ⟨-, rfl⟩ := h
      simpa [advance, size] using Source.size_next_lt hn
    · next r src hne hn =>
      simp only [Prod.mk.injEq] at h
      obtain ⟨rfl, -⟩ := h
      exact (hne t rfl).elim

end Stream

end MiniLisp
