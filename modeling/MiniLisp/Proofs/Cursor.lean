import MiniLisp.Proofs.Joining

/-!
# Streams as places in a sequence of tokens

A stream scans a text as tokens are asked for, may hold a token that it has looked at, and reads
expressions through both. All the same it answers like a finger on the sequence of all the tokens:
what it answers, and where it is afterwards, depends on the tokens that are left and on the failure
that cuts them short, and not on what it holds or how far the text has been scanned.

What a call does at a place is said without the stream: which tokens spell an expression, and which
of them only begin one.

## Main definitions

* `Cursor`: a place in a sequence of tokens
* `Cursor.Answers c call a c'`: at the place `c` the call has the answer `a` and leads to `c'`
* `Cursor.Run`: calls made one after the other
* `Cursor.Left e c c'`: what a failure to read an expression has taken
* `Source.Yields src ts src'`: the source was asked for the tokens and for nothing else
* `Stream.Ahead s src ts`: of the source, the stream has had the tokens that it has delivered, the
  one that it holds, and no other

## Main results

* `Stream.readFrom_cursor`: reading off a stream is reading off the sequence of its tokens
* `Stream.answers_iff`: each call has the answer of the cursor
* `stream_follows_cursor`: the same for calls made one after the other, and what follows
-/

namespace MiniLisp

/-! ## Calls -/

namespace Stream

/-- What a stream can be asked for. -/
inductive Call where
  | peek
  | advance
  | readExpr

/-- What a call finds: the next token or the next expression, if there is one. -/
inductive Found where
  | token (t : Option Token)
  | expr (e : Option Expr)

/-- What a call comes to. -/
abbrev Answer := Except ReadError Found

/-- The stream that begins with a source. -/
def ofSource (src : Source) : Stream := ⟨none, src⟩

/-- Makes a call. -/
def call (s : Stream) : Call → Answer × Stream
  | .peek => (s.peek.1.map .token, s.peek.2)
  | .advance => (s.advance.1.map .token, s.advance.2)
  | .readExpr => (s.readExpr.1.map .expr, s.readExpr.2)

/-- The answers to calls made one after the other. -/
def answers : Stream → List Call → List Answer
  | _, [] => []
  | s, q :: qs => (s.call q).1 :: answers (s.call q).2 qs

/-- The stream after calls. -/
def after : Stream → List Call → Stream
  | s, [] => s
  | s, q :: qs => after (s.call q).2 qs

theorem answers_append (s : Stream) (qs rs : List Call) :
    s.answers (qs ++ rs) = s.answers qs ++ (s.after qs).answers rs := by
  induction qs generalizing s with
  | nil => rfl
  | cons q qs ih => rw [List.cons_append, answers, ih]; rfl

theorem length_answers (s : Stream) (qs : List Call) : (s.answers qs).length = qs.length := by
  induction qs generalizing s with
  | nil => rfl
  | cons q qs ih => rw [answers, List.length_cons, ih, List.length_cons]

end Stream

/-! ## Places in a sequence of tokens -/

/-- A place in a sequence of tokens: the tokens after it, and the failure that comes after these if
they are cut short. -/
structure Cursor where
  tokens : List Token
  failure : Option ReadError

namespace Cursor

/-- The place after all tokens. -/
def atEnd : Cursor := ⟨[], none⟩

/-- The call needs what comes after the tokens: it is a call for a token and there are none, or they
begin an expression and do not complete it. -/
def Needs (ts : List Token) : Stream.Call → Prop
  | .peek => ts = []
  | .advance => ts = []
  | .readExpr => ∃ opened, Opens ts opened

/-- At a place in a sequence of tokens a call has an answer and leads to another place. -/
inductive Answers : Cursor → Stream.Call → Stream.Answer → Cursor → Prop
  | peek {t : Token} {ts : List Token} {x : Option ReadError} :
    Answers ⟨t :: ts, x⟩ .peek (.ok (.token (some t))) ⟨t :: ts, x⟩
  | peekEnd : Answers atEnd .peek (.ok (.token none)) atEnd
  | advance {t : Token} {ts : List Token} {x : Option ReadError} :
    Answers ⟨t :: ts, x⟩ .advance (.ok (.token (some t))) ⟨ts, x⟩
  | advanceEnd : Answers atEnd .advance (.ok (.token none)) atEnd
  /-- The tokens that spell an expression are taken. -/
  | expr {ts rest : List Token} {e : Expr} {x : Option ReadError} :
    Spelling ts e → Answers ⟨ts ++ rest, x⟩ .readExpr (.ok (.expr (some e))) ⟨rest, x⟩
  | exprEnd : Answers atEnd .readExpr (.ok (.expr none)) atEnd
  /-- A closing parenthesis is not taken where no list is open. -/
  | unmatched {t : Token} {ts : List Token} {x : Option ReadError} : t.kind = .closing →
    Answers ⟨t :: ts, x⟩ .readExpr (.error (.unmatchedClosing t.pos)) ⟨t :: ts, x⟩
  /-- A token of no known kind is not taken, but the tokens before it are. -/
  | unknown {ts rest : List Token} {opened : List OpenList} {t : Token} {kind : String}
      {x : Option ReadError} : Opens ts opened → t.kind = .other kind →
    Answers ⟨ts ++ t :: rest, x⟩ .readExpr (.error (.unknownToken kind t.value t.pos))
      ⟨t :: rest, x⟩
  /-- A word that spells too long an integer is taken. -/
  | oversized {ts rest : List Token} {opened : List OpenList} {t : Token}
      {x : Option ReadError} : Opens ts opened → t.IsOversized →
    Answers ⟨ts ++ t :: rest, x⟩ .readExpr (.error .oversizedInteger) ⟨rest, x⟩
  /-- The innermost list that is open at the end is the one that is not closed. -/
  | unterminated {ts : List Token} {l : OpenList} {opened : List OpenList} :
    Opens ts (l :: opened) →
    Answers ⟨ts, none⟩ .readExpr (.error (.unterminatedList l.pos)) atEnd
  /-- The failure after the tokens is met by the first call that needs what is there. -/
  | cutShort {ts : List Token} {e : ReadError} {q : Stream.Call} : Needs ts q →
    Answers ⟨ts, some e⟩ q (.error e) atEnd

/-- Calls made one after the other have the answers and lead to a place. -/
inductive Run : Cursor → List Stream.Call → List Stream.Answer → Cursor → Prop
  | nil {c : Cursor} : Run c [] [] c
  | cons {c c₁ c₂ : Cursor} {q : Stream.Call} {qs : List Stream.Call} {a : Stream.Answer}
      {as : List Stream.Answer} :
    c.Answers q a c₁ → Run c₁ qs as c₂ → Run c (q :: qs) (a :: as) c₂

/-- What is left after a failure to read an expression. -/
def Left (c c' : Cursor) : ReadError → Prop
  | .unmatchedClosing p => c' = c ∧ c'.Answers .readExpr (.error (.unmatchedClosing p)) c'
  | .unknownToken kind value pos => ∃ taken, c.tokens = taken ++ c'.tokens ∧
    c'.tokens.head? = some ⟨.other kind, value, pos⟩
  | .oversizedInteger => ∃ taken t, c.tokens = taken ++ t :: c'.tokens ∧ t.IsOversized ∧
    ∃ opened, Opens taken opened
  | .unterminatedList _ => c' = atEnd
  | .unterminatedString _ => c' = atEnd
  | .emptyInput _ => False

end Cursor

/-- The place before all the tokens of a source. -/
def Source.cursor (src : Source) : Cursor := ⟨src.drain.1, src.drain.2⟩

/-- The place that a stream has come to: the token that it holds is still to be delivered. -/
def Stream.cursor (s : Stream) : Cursor :=
  ⟨s.held.toList ++ s.source.cursor.tokens, s.source.cursor.failure⟩

/-! ## Single tokens -/

/-- The next token of a source is the first one at its place. -/
theorem Source.next_cases (src : Source) :
    (∃ e, src.next = (.error e, exhausted) ∧ src.cursor = ⟨[], some e⟩) ∨
      src.next = (.ok none, exhausted) ∧ src.cursor = .atEnd ∨
      ∃ t src', src.next = (.ok (some t), src') ∧
        src.cursor = ⟨t :: src'.cursor.tokens, src'.cursor.failure⟩ := by
  have hexhausted : ∀ r src', src.next = (r, src') → (∀ t, r ≠ .ok (some t)) →
      src' = exhausted := by
    intro r src' h ht
    unfold next at h
    split at h
    · cases h; rfl
    · cases h; exact absurd rfl (ht _)
    · split at h <;> cases h
      · rfl
      · rfl
      · exact absurd rfl (ht _)
  rcases hnext : src.next with ⟨e | ⟨_ | t⟩, src'⟩
  · obtain rfl := hexhausted _ _ hnext (by simp)
    exact .inl ⟨e, rfl, by rw [cursor, drain_eq, hnext]⟩
  · obtain rfl := hexhausted _ _ hnext (by simp)
    exact .inr (.inl ⟨rfl, by rw [cursor, drain_eq, hnext]; rfl⟩)
  · exact .inr (.inr ⟨t, src', rfl, by rw [cursor, drain_eq, hnext]; rfl⟩)

/-- The tokens of a source that was given as a list are the list. -/
theorem Source.cursor_tokens (ts : List Token) : (Source.tokens ts).cursor = ⟨ts, none⟩ := by
  rw [cursor, drain_tokens]

theorem Source.cursor_exhausted : exhausted.cursor = .atEnd := cursor_tokens []

namespace Stream

/-- The next token of a stream is the first one at its place, and is held after it was looked at. -/
theorem peek_cases (s : Stream) :
    (∃ e, s.peek = (.error e, ⟨none, .exhausted⟩) ∧ s.cursor = ⟨[], some e⟩) ∨
      s.peek = (.ok none, ⟨none, .exhausted⟩) ∧ s.cursor = .atEnd ∨
      ∃ t src, s.peek = (.ok (some t), ⟨some t, src⟩) ∧
        s.cursor = ⟨t :: src.cursor.tokens, src.cursor.failure⟩ := by
  obtain ⟨_ | t, src⟩ := s
  · rcases src.next_cases with ⟨e, hnext, hc⟩ | ⟨hnext, hc⟩ | ⟨t, src', hnext, hc⟩
    · exact .inl ⟨e, by simp only [peek, hnext], hc⟩
    · exact .inr (.inl ⟨by simp only [peek, hnext], hc⟩)
    · exact .inr (.inr ⟨t, src', by simp only [peek, hnext], hc⟩)
  · exact .inr (.inr ⟨t, src, rfl, rfl⟩)

/-- To deliver a token is to look at it and hold it no longer. -/
theorem advance_eq (s : Stream) : s.advance = (s.peek.1, ⟨none, s.peek.2.source⟩) := by
  obtain ⟨_ | t, src⟩ := s
  · rcases hnext : src.next with ⟨e | ⟨_ | t⟩, src'⟩ <;> simp only [advance, peek, hnext]
  · rfl

end Stream

/-! ## Reading at a place -/

/-- The tokens that are refused are closing parentheses where no list is open, and tokens of no
known kind. -/
theorem step_refuse {t : Token} {opened : List OpenList} {e : ReadError}
    (h : step t opened = .refuse e) :
    t.kind = .closing ∧ opened = [] ∧ e = .unmatchedClosing t.pos ∨
      ∃ kind, t.kind = .other kind ∧ e = .unknownToken kind t.value t.pos := by
  unfold step at h
  split at h
  · split at h
    · exact absurd h (Stream.supply_ne_refuse _ _ _)
    · cases h
  · exact absurd h (Stream.supply_ne_refuse _ _ _)
  · cases h
  · next hkind =>
    cases opened with
    | nil =>
      cases h
      exact .inl ⟨hkind, rfl, rfl⟩
    | cons l opened => exact absurd h (Stream.supply_ne_refuse _ _ _)
  · next kind hkind =>
    cases h
    exact .inr ⟨kind, hkind, rfl⟩

/-- The tokens that are taken and spell nothing are integers that are too long. -/
theorem step_eq_fail_iff {t : Token} {opened : List OpenList} {e : ReadError} :
    step t opened = .fail e ↔ t.IsOversized ∧ e = .oversizedInteger := by
  have hsupply : ∀ e' opened', supply e' opened' ≠ .fail e := by
    intro e' opened'
    cases opened' <;> simp [supply]
  constructor
  · intro h
    unfold step at h
    split at h
    · next hkind =>
      split at h
      · exact absurd h (hsupply _ _)
      · next hword =>
        cases h
        refine ⟨?_, ofWord_error hword⟩
        by_contra hlong
        obtain ⟨a, ha⟩ := exists_ofWord hkind hlong
        rw [hword] at ha
        cases ha
    · exact absurd h (hsupply _ _)
    · cases h
    · cases opened with
      | nil => cases h
      | cons l opened => exact absurd h (hsupply _ _)
    · cases h
  · rintro ⟨⟨hkind, n, hn, hint, hlong⟩, rfl⟩
    have hword : Atom.ofWord t.value = .error .oversizedInteger := by
      rw [Atom.ofWord, hn]
      simp only [hint, hlong, if_true]
    simp only [step, hkind, hword]

namespace Cursor

/-- The next token at a place, looked at. -/
def peek : Cursor → Except ReadError (Option Token) × Cursor
  | ⟨t :: ts, x⟩ => (.ok (some t), ⟨t :: ts, x⟩)
  | ⟨[], x⟩ => (x.elim (.ok none) .error, atEnd)

/-- The next token at a place, taken. -/
def advance : Cursor → Except ReadError (Option Token) × Cursor
  | ⟨t :: ts, x⟩ => (.ok (some t), ⟨ts, x⟩)
  | ⟨[], x⟩ => (x.elim (.ok none) .error, atEnd)

/-- An expression read off a sequence of tokens, with the given lists open, and the place after
it; `failure` is what comes after the tokens, if it is not their end. -/
def readFrom (failure : Option ReadError) :
    List OpenList → List Token → Except ReadError (Option Expr) × Cursor
  | opened, [] => (failure.elim (MiniLisp.atEnd opened) .error, atEnd)
  | opened, t :: ts =>
    match step t opened with
    | .refuse e => (.error e, ⟨t :: ts, failure⟩)
    | .fail e => (.error e, ⟨ts, failure⟩)
    | .complete e => (.ok (some e), ⟨ts, failure⟩)
    | .proceed opened' => readFrom failure opened' ts

/-- What becomes of the reading of an expression after a step that takes its token. -/
def resume (failure : Option ReadError) :
    Step → List Token → Except ReadError (Option Expr) × Cursor
  | .refuse e, ts => (.error e, ⟨ts, failure⟩)
  | .fail e, ts => (.error e, ⟨ts, failure⟩)
  | .complete e, ts => (.ok (some e), ⟨ts, failure⟩)
  | .proceed opened, ts => readFrom failure opened ts

theorem tokenwise_readFrom (failure : Option ReadError) :
    Tokenwise (readFrom failure) (resume failure) where
  take opened t ts h := by
    rw [readFrom]
    cases hstep : step t opened with
    | refuse e => exact absurd hstep (h e)
    | _ => rfl
  proceed _ _ := rfl

/-- What is read with lists open is what a call for an expression finds at the place before the
tokens that opened them. -/
theorem answers_readFrom {failure : Option ReadError} {ts : List Token} {opened : List OpenList}
    (h : Opens ts opened) (us : List Token) :
    Answers ⟨ts ++ us, failure⟩ .readExpr ((readFrom failure opened us).1.map .expr)
      (readFrom failure opened us).2 := by
  induction us generalizing ts opened with
  | nil =>
    rw [List.append_nil, readFrom]
    cases failure with
    | some e => exact .cutShort ⟨opened, h⟩
    | none =>
      cases opened with
      | nil =>
        cases h
        exact .exprEnd
      | cons l opened => exact .unterminated h
  | cons t us ih =>
    have hspelled := h.step t
    rw [readFrom]
    cases hstep : step t opened with
    | proceed opened' =>
      rw [hstep] at hspelled
      have hrest := ih hspelled
      rwa [List.append_assoc] at hrest
    | complete e =>
      rw [hstep] at hspelled
      have hexpr : Answers ⟨(ts ++ [t]) ++ us, failure⟩ .readExpr (.ok (.expr (some e)))
          ⟨us, failure⟩ := .expr hspelled
      rwa [List.append_assoc] at hexpr
    | refuse e =>
      rcases step_refuse hstep with ⟨hkind, rfl, rfl⟩ | ⟨kind, hkind, rfl⟩
      · cases h
        exact .unmatched hkind
      · exact .unknown h hkind
    | fail e =>
      obtain ⟨hlong, rfl⟩ := step_eq_fail_iff.mp hstep
      exact .oversized h hlong

/-- Makes a call at a place. -/
def call (c : Cursor) : Stream.Call → Stream.Answer × Cursor
  | .peek => (c.peek.1.map .token, c.peek.2)
  | .advance => (c.advance.1.map .token, c.advance.2)
  | .readExpr =>
    ((readFrom c.failure [] c.tokens).1.map .expr, (readFrom c.failure [] c.tokens).2)

theorem answers_call (c : Cursor) (q : Stream.Call) : c.Answers q (c.call q).1 (c.call q).2 := by
  cases q with
  | peek =>
    rcases c with ⟨_ | ⟨t, ts⟩, _ | e⟩
    · exact .peekEnd
    · exact .cutShort rfl
    · exact .peek
    · exact .peek
  | advance =>
    rcases c with ⟨_ | ⟨t, ts⟩, _ | e⟩
    · exact .advanceEnd
    · exact .cutShort rfl
    · exact .advance
    · exact .advance
  | readExpr => exact answers_readFrom .nil c.tokens

/-- At a place, a call has one answer and leads to one place. -/
theorem Answers.call_eq {c c' : Cursor} {q : Stream.Call} {a : Stream.Answer}
    (h : c.Answers q a c') : c.call q = (a, c') := by
  cases h with
  | peek | peekEnd | advance | advanceEnd | exprEnd => rfl
  | @expr ts rest e x he => rw [call, he.read (tokenwise_readFrom x)]; rfl
  | @unmatched t ts x hkind =>
    have hstep : step t [] = .refuse (.unmatchedClosing t.pos) := by simp only [step, hkind]
    rw [call, readFrom, hstep]
    rfl
  | @unknown ts rest opened t kind x hopens hkind =>
    have hstep : step t opened = .refuse (.unknownToken kind t.value t.pos) := by
      simp only [step, hkind]
    rw [call, hopens.read (tokenwise_readFrom x), readFrom, hstep]
    rfl
  | @oversized ts rest opened t x hopens hlong =>
    rw [call, hopens.read (tokenwise_readFrom x), readFrom, step_eq_fail_iff.mpr ⟨hlong, rfl⟩]
    rfl
  | @unterminated ts l opened hopens =>
    have hread := hopens.read (tokenwise_readFrom none) []
    rw [List.append_nil] at hread
    rw [call, hread]
    rfl
  | @cutShort ts e q hneeds =>
    cases q with
    | peek =>
      obtain rfl : ts = [] := hneeds
      rfl
    | advance =>
      obtain rfl : ts = [] := hneeds
      rfl
    | readExpr =>
      obtain ⟨opened, hopens⟩ := hneeds
      have hread := hopens.read (tokenwise_readFrom (some e)) []
      rw [List.append_nil] at hread
      rw [call, hread]
      rfl

theorem answers_iff {c c' : Cursor} {q : Stream.Call} {a : Stream.Answer} :
    c.Answers q a c' ↔ c.call q = (a, c') := by
  refine ⟨Answers.call_eq, fun h => ?_⟩
  have hanswers := c.answers_call q
  rwa [h] at hanswers

end Cursor

/-! ## The place of a stream -/

namespace Stream

/-- To read an expression off a stream is to read it at its place. -/
theorem readFrom_cursor (opened : List OpenList) (s : Stream) :
    Cursor.readFrom s.cursor.failure opened s.cursor.tokens =
      ((s.readFrom opened).1, (s.readFrom opened).2.cursor) := by
  induction hsize : s.size using Nat.strong_induction_on generalizing opened s with
  | _ n ih =>
    rw [readFrom_eq]
    rcases s.peek_cases with ⟨e, hpeek, hc⟩ | ⟨hpeek, hc⟩ | ⟨t, src, hpeek, hc⟩
    · simp only [hpeek, hc, Cursor.readFrom, Option.elim_some]
      exact congrArg _ Source.cursor_exhausted.symm
    · simp only [hpeek, hc]
      exact congrArg _ Source.cursor_exhausted.symm
    · have hlt := hsize ▸ size_advance_peek_lt hpeek
      have hrest := fun opened' => ih _ hlt opened' ⟨none, src⟩ rfl
      simp only [hpeek, hc, Cursor.readFrom]
      cases hstep : step t opened with
      | refuse e | fail e | complete e => rfl
      | proceed opened' => exact hrest opened'

/-- A call does at the place of a stream what it does to the stream. -/
theorem call_cursor (s : Stream) (q : Call) :
    s.cursor.call q = ((s.call q).1, (s.call q).2.cursor) := by
  cases q with
  | readExpr =>
    have hread := readFrom_cursor [] s
    rw [Cursor.call, hread]
    rfl
  | peek | advance =>
    simp only [call, Cursor.call, advance_eq]
    rcases s.peek_cases with ⟨e, hpeek, hc⟩ | ⟨hpeek, hc⟩ | ⟨t, src, hpeek, hc⟩
    · rw [hpeek, hc]
      exact congrArg _ Source.cursor_exhausted.symm
    · rw [hpeek, hc]
      exact congrArg _ Source.cursor_exhausted.symm
    · rw [hpeek, hc]
      rfl

/-- Calls made one after the other have the answers of the cursor and lead to its place. -/
theorem run_cursor_iff {s : Stream} {qs : List Call} {as : List Answer} {c : Cursor} :
    s.cursor.Run qs as c ↔ as = s.answers qs ∧ c = (s.after qs).cursor := by
  induction qs generalizing s as c with
  | nil =>
    constructor
    · rintro ⟨⟩
      exact ⟨rfl, rfl⟩
    · rintro ⟨rfl, rfl⟩
      exact .nil
  | cons q qs ih =>
    constructor
    · rintro (_ | ⟨hanswer, hrun⟩)
      have hcall := hanswer.call_eq
      rw [call_cursor] at hcall
      cases hcall
      obtain ⟨rfl, rfl⟩ := ih.mp hrun
      exact ⟨rfl, rfl⟩
    · rintro ⟨rfl, rfl⟩
      exact .cons (Cursor.answers_iff.mpr (s.call_cursor q)) (ih.mpr ⟨rfl, rfl⟩)

/-- Streams that have come to the same place have the same answers. -/
theorem answers_congr {s s' : Stream} (h : s.cursor = s'.cursor) (qs : List Call) :
    s.answers qs = s'.answers qs := by
  have hrun : s'.cursor.Run qs (s.answers qs) (s.after qs).cursor :=
    h ▸ run_cursor_iff.mpr ⟨rfl, rfl⟩
  exact (run_cursor_iff.mp hrun).1

/-- To look at a token is to stay where one is. -/
theorem cursor_peek {s : Stream} (h : ∀ e, s.peek.1 ≠ .error e) : s.peek.2.cursor = s.cursor := by
  rcases s.peek_cases with ⟨e, hpeek, -⟩ | ⟨hpeek, hc⟩ | ⟨t, src, hpeek, hc⟩
  · rw [hpeek] at h
    exact absurd rfl (h e)
  · rw [hpeek, hc]
    exact Source.cursor_exhausted
  · rw [hpeek, hc]
    rfl

/-- A token that was looked at may as well not have been. -/
theorem answers_erase_peek (s : Stream) (qs rs : List Call)
    (h : ∀ e, (s.after qs).peek.1 ≠ .error e) :
    s.answers (qs ++ rs) = (s.answers (qs ++ .peek :: rs)).eraseIdx qs.length := by
  have hrest := answers_congr (cursor_peek h) rs
  rw [answers_append, answers_append, answers, ← s.length_answers qs,
    List.eraseIdx_append_of_length_le (le_refl _), Nat.sub_self, List.eraseIdx_cons_zero]
  exact congrArg _ hrest.symm

end Stream

/-! ## The failure after the tokens -/

namespace Cursor

variable {c c' : Cursor} {q : Stream.Call} {a : Stream.Answer} {p : Nat}

/-- A string that does not end is met by the calls that need what comes after the tokens, and by no
others. -/
theorem Answers.unterminatedString_iff (h : c.Answers q a c') :
    a = .error (.unterminatedString p) ↔
      c.failure = some (.unterminatedString p) ∧ Needs c.tokens q := by
  constructor
  · rintro rfl
    cases h with
    | cutShort hneeds => exact ⟨rfl, hneeds⟩
  · rintro ⟨hfailure, hneeds⟩
    have hcut : c.Answers q (.error (.unterminatedString p)) atEnd := by
      obtain ⟨ts, x⟩ := c
      obtain rfl : x = some (.unterminatedString p) := hfailure
      exact .cutShort hneeds
    have heq := h.call_eq
    rw [hcut.call_eq] at heq
    exact (Prod.mk.inj heq).1.symm

/-- It lies ahead as long as it has not been met. -/
theorem Answers.failure_iff (h : c.Answers q a c') :
    c'.failure = some (.unterminatedString p) ↔
      c.failure = some (.unterminatedString p) ∧ a ≠ .error (.unterminatedString p) := by
  cases h <;> simp [atEnd]

theorem Run.failure_iff {qs : List Stream.Call} {as : List Stream.Answer} (h : c.Run qs as c') :
    c'.failure = some (.unterminatedString p) ↔
      c.failure = some (.unterminatedString p) ∧ .error (.unterminatedString p) ∉ as := by
  induction h with
  | nil => simp
  | cons hanswer _ ih =>
    rw [ih, hanswer.failure_iff, List.mem_cons, not_or, and_assoc, ne_comm]

/-- After the failure there is nothing left. -/
theorem Answers.eq_atEnd (h : c.Answers q (.error (.unterminatedString p)) c') : c' = atEnd := by
  cases h with
  | cutShort => rfl

/-- What is left after a failure to read an expression. -/
theorem Answers.left {e : ReadError} (h : c.Answers .readExpr (.error e) c')
    (hc : ∀ e, c.failure = some e → ∃ p, e = .unterminatedString p) : c.Left c' e := by
  cases h with
  | @unmatched t ts x hkind => exact ⟨rfl, .unmatched hkind⟩
  | @unknown ts rest opened t kind x _ hkind =>
    refine ⟨ts, rfl, ?_⟩
    obtain ⟨kind', value, pos⟩ := t
    obtain rfl : kind' = .other kind := hkind
    rfl
  | oversized hopens hlong => exact ⟨_, _, rfl, hlong, _, hopens⟩
  | unterminated => exact rfl
  | cutShort =>
    obtain ⟨p, rfl⟩ := hc e rfl
    exact rfl

end Cursor

/-- A source is cut short by nothing but a string that does not end. -/
theorem Source.failure_cursor {src : Source} {e : ReadError} (h : src.cursor.failure = some e) :
    ∃ p, e = .unterminatedString p := by
  cases src with
  | tokens ts =>
    rw [cursor_tokens] at h
    cases h
  | text s pos =>
    exact (lexing_drain s pos).failure_eq e h

/-! ## How far a source has been asked -/

/-- The source was asked for the tokens, one by one, and for nothing else. -/
inductive Source.Yields : Source → List Token → Source → Prop
  | nil {src : Source} : Yields src [] src
  | cons {src src₁ src₂ : Source} {t : Token} {ts : List Token} :
    src.next = (.ok (some t), src₁) → Yields src₁ ts src₂ → Yields src (t :: ts) src₂

theorem Source.Yields.snoc {src src₁ src₂ : Source} {t : Token} {ts : List Token}
    (h : src.Yields ts src₁) (hnext : src₁.next = (.ok (some t), src₂)) :
    src.Yields (ts ++ [t]) src₂ := by
  induction h with
  | nil => exact .cons hnext .nil
  | cons hfirst _ ih => exact .cons hfirst (ih hnext)

theorem Source.Yields.cursor_eq {src src' : Source} {ts : List Token} (h : src.Yields ts src') :
    src.cursor = ⟨ts ++ src'.cursor.tokens, src'.cursor.failure⟩ := by
  induction h with
  | nil => rfl
  | @cons src src₁ src₂ t ts hnext _ ih =>
    rcases src.next_cases with ⟨e, hnext', -⟩ | ⟨hnext', -⟩ | ⟨t', src', hnext', hc⟩
    · rw [hnext] at hnext'
      cases hnext'
    · rw [hnext] at hnext'
      cases hnext'
    · rw [hnext] at hnext'
      cases hnext'
      rw [hc, ih]
      rfl

/-- Of the source, the stream has had the tokens `ts`, which it has delivered, and the one that it
holds. It has asked for no other, unless that was to find that there is none. -/
def Stream.Ahead (s : Stream) (src : Source) (ts : List Token) : Prop :=
  ∃ src', src.Yields (ts ++ s.held.toList) src' ∧
    (s.source = src' ∨
      s.held = none ∧ (∀ t, src'.next.1 ≠ .ok (some t)) ∧ s.source = .exhausted)

namespace Stream.Ahead

variable {src : Source} {ts : List Token} {s : Stream}

theorem start (src : Source) : (ofSource src).Ahead src [] := ⟨src, .nil, .inl rfl⟩

/-- The tokens of the source are those delivered and those to come. -/
theorem tokens_eq (h : s.Ahead src ts) : src.cursor.tokens = ts ++ s.cursor.tokens := by
  obtain ⟨src', hyields, rfl | ⟨-, hend, hsource⟩⟩ := h
  · rw [hyields.cursor_eq, List.append_assoc]
    rfl
  · have hempty : src'.cursor.tokens = s.source.cursor.tokens := by
      rw [hsource, Source.cursor_exhausted]
      rcases src'.next_cases with ⟨e, -, hc⟩ | ⟨-, hc⟩ | ⟨t, _, hnext, -⟩
      · rw [hc]
        rfl
      · rw [hc]
      · exact absurd (congrArg Prod.fst hnext) (hend t)
    rw [hyields.cursor_eq, hempty, List.append_assoc]
    rfl

theorem peek (h : s.Ahead src ts) : s.peek.2.Ahead src ts := by
  obtain ⟨_ | t, source⟩ := s
  · obtain ⟨src', hyields, rfl | ⟨-, hend, rfl⟩⟩ := h
    · rcases source.next_cases with ⟨e, hnext, -⟩ | ⟨hnext, -⟩ | ⟨t, source', hnext, -⟩
      · simp only [Stream.peek, hnext]
        exact ⟨source, hyields, .inr ⟨rfl, by simp [hnext], rfl⟩⟩
      · simp only [Stream.peek, hnext]
        exact ⟨source, hyields, .inr ⟨rfl, by simp [hnext], rfl⟩⟩
      · simp only [Stream.peek, hnext]
        rw [Option.toList_none, List.append_nil] at hyields
        exact ⟨source', hyields.snoc hnext, .inl rfl⟩
    · exact ⟨src', hyields, .inr ⟨rfl, hend, rfl⟩⟩
  · exact h

/-- A token that was held may be delivered. -/
theorem deliver {t : Option Token} {source : Source} (h : Ahead ⟨t, source⟩ src ts) :
    Ahead ⟨none, source⟩ src (ts ++ t.toList) := by
  obtain ⟨src', hyields, hsource⟩ := h
  rw [← List.append_nil (ts ++ _)] at hyields
  exact ⟨src', hyields, hsource.imp_right fun hend => ⟨rfl, hend.2⟩⟩

theorem advance (h : s.Ahead src ts) : ∃ ts', s.advance.2.Ahead src ts' := by
  rw [advance_eq]
  exact ⟨_, h.peek.deliver⟩

theorem readFrom (h : s.Ahead src ts) (opened : List OpenList) :
    ∃ ts', (s.readFrom opened).2.Ahead src ts' := by
  induction hsize : s.size using Nat.strong_induction_on generalizing opened s ts with
  | _ n ih =>
    rw [readFrom_eq]
    have hpeeked := h.peek
    rcases hpeek : s.peek with ⟨e | ⟨_ | t⟩, s'⟩ <;> rw [hpeek] at hpeeked
    · exact ⟨ts, hpeeked⟩
    · exact ⟨ts, hpeeked⟩
    · obtain ⟨ts', hadvanced⟩ := hpeeked.advance
      have hlt := hsize ▸ size_advance_peek_lt hpeek
      simp only
      cases step t opened with
      | refuse e => exact ⟨ts, hpeeked⟩
      | fail e => exact ⟨ts', hadvanced⟩
      | complete e => exact ⟨ts', hadvanced⟩
      | proceed opened' => exact ih _ hlt hadvanced opened' rfl

theorem call (h : s.Ahead src ts) (q : Call) : ∃ ts', (s.call q).2.Ahead src ts' := by
  cases q with
  | peek => exact ⟨ts, h.peek⟩
  | advance => exact h.advance
  | readExpr => exact h.readFrom []

theorem after (h : s.Ahead src ts) (qs : List Call) : ∃ ts', (s.after qs).Ahead src ts' := by
  induction qs generalizing s ts with
  | nil => exact ⟨ts, h⟩
  | cons q qs ih =>
    obtain ⟨ts', hcall⟩ := h.call q
    exact ih hcall

end Stream.Ahead

/-- **A stream follows a cursor.** After any calls to a stream over any source, the answers are
those of a cursor over the tokens of the source, and the stream has come to the place of the cursor.
If the source is a list, its tokens are those of the list, and nothing cuts them short. Of the
source the stream has had the tokens up to that place and at most one more. A call that looked at a
token and did not fail may be left out, and the other answers stay the same.

A string that does not end is the answer to the first call that needs what comes after the tokens,
and to no other, and leaves the stream at its end. What a failure to read an expression leaves is
told by the failure. -/
theorem stream_follows_cursor (src : Source) (qs : List Stream.Call) :
    let as := (Stream.ofSource src).answers qs
    let s := (Stream.ofSource src).after qs
    (∀ ts, src = .tokens ts → src.cursor = ⟨ts, none⟩) ∧
    (∀ as' c, src.cursor.Run qs as' c ↔ as' = as ∧ c = s.cursor) ∧
    (∃ ts, src.cursor.tokens = ts ++ s.cursor.tokens ∧ s.Ahead src ts) ∧
    (∀ qs₁ qs₂, qs = qs₁ ++ .peek :: qs₂ →
      (∀ e, ((Stream.ofSource src).after qs₁).peek.1 ≠ .error e) →
        (Stream.ofSource src).answers (qs₁ ++ qs₂) = as.eraseIdx qs₁.length) ∧
    (∀ q p, (s.call q).1 = .error (.unterminatedString p) ↔
      src.cursor.failure = some (.unterminatedString p) ∧
        .error (.unterminatedString p) ∉ as ∧ Cursor.Needs s.cursor.tokens q) ∧
    (∀ q p, (s.call q).1 = .error (.unterminatedString p) → (s.call q).2.cursor = .atEnd) ∧
    ∀ e, (s.call .readExpr).1 = .error e → s.cursor.Left (s.call .readExpr).2.cursor e := by
  intro as s
  have hanswers : ∀ q, s.cursor.Answers q (s.call q).1 (s.call q).2.cursor := fun q =>
    Cursor.answers_iff.mpr (s.call_cursor q)
  have hrun : src.cursor.Run qs as s.cursor :=
    (Stream.run_cursor_iff (s := .ofSource src)).mpr ⟨rfl, rfl⟩
  obtain ⟨ts, hahead⟩ := (Stream.Ahead.start src).after qs
  refine ⟨?_, fun _ _ => Stream.run_cursor_iff (s := .ofSource src),
    ⟨ts, hahead.tokens_eq, hahead⟩, ?_, ?_, ?_, ?_⟩
  · rintro ts rfl
    exact Source.cursor_tokens ts
  · rintro qs₁ qs₂ rfl hpeek
    exact (Stream.ofSource src).answers_erase_peek qs₁ qs₂ hpeek
  · intro q p
    rw [(hanswers q).unterminatedString_iff, hrun.failure_iff, and_assoc]
  · intro q p h
    exact (h ▸ hanswers q).eq_atEnd
  · intro e h
    exact (h ▸ hanswers .readExpr).left fun _ => @Source.failure_cursor s.source _

end MiniLisp
