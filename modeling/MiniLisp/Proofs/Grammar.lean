import MiniLisp.Proofs.Lexing
import MiniLisp.Proofs.Writable

/-!
# The grammar of expressions

Which tokens spell which expressions, said without the reader: a word spells the atom that it
stands for, a string itself, and the spellings of expressions between parentheses the list of these
expressions. The reader takes the tokens that spell an expression, and no others, whatever comes
after them.

Tokens are read in two ways: one expression at a time off a stream, and all of them at once. So what
a spelling does to the reading is shown for every reading that goes token by token.

## Main definitions

* `Spelling ts e`, `Spellings ts es`: the tokens spell the expression, or the expressions in order
* `Tokenwise read resume`: the reading `read` goes token by token
* `readTokens failure opened ts`: the expressions that the tokens spell one after the other, and the
  failure that cuts them short
* `Opens ts opened`: the tokens begin an expression and leave the given lists open

## Main results

* `Spelling.read`: tokens that spell an expression have the effect of the expression
* `Opens.step`: what a token does to the tokens before it
* `exists_spellings_of_readTokens`: the expressions read are spelled by the tokens, up to where
  nothing is spelled
* `readExpr_ofTokens_iff`: a stream of tokens gives an expression if its next tokens spell it
-/

namespace MiniLisp

/-! ## Spellings -/

mutual

/-- The tokens spell the expression. -/
inductive Spelling : List Token → Expr → Prop
  | word {t : Token} {a : Atom} : t.kind = .word → Atom.ofWord t.value = .ok a →
      Spelling [t] (.atom a)
  | str {t : Token} : t.kind = .str → Spelling [t] (.atom (.str t.value))
  | list {o c : Token} {ts : List Token} {es : List Expr} : o.kind = .opening →
      c.kind = .closing → Spellings ts es → Spelling (o :: (ts ++ [c])) (.list es)

/-- The tokens spell the expressions, one after the other. -/
inductive Spellings : List Token → List Expr → Prop
  | nil : Spellings [] []
  | cons {ts us : List Token} {e : Expr} {es : List Expr} :
      Spelling ts e → Spellings us es → Spellings (ts ++ us) (e :: es)

end

theorem Spellings.append_singleton {us : List Token} {e : Expr} (he : Spelling us e) :
    ∀ {ts : List Token} {es : List Expr}, Spellings ts es → Spellings (ts ++ us) (es ++ [e])
  | _, _, .nil => by
    have h := Spellings.cons he .nil
    rwa [List.append_nil] at h
  | _, _, .cons h hs => by
    rw [List.append_assoc]
    exact .cons h (append_singleton he hs)

/-! ## What spelled expressions are made of -/

mutual

/-- The expression is made of lists and of atoms with the given property, and of nothing else. -/
def Expr.MadeOf (P : Atom → Prop) : Expr → Prop
  | .atom a => P a
  | .list es => Expr.AllMadeOf P es
  | .embedded _ => False

/-- Each of the expressions is made of lists and of atoms with the given property. -/
def Expr.AllMadeOf (P : Atom → Prop) : List Expr → Prop
  | [] => True
  | e :: es => e.MadeOf P ∧ Expr.AllMadeOf P es

end

section MadeOf

variable {P Q : Atom → Prop}

theorem Expr.allMadeOf_iff {es : List Expr} : Expr.AllMadeOf P es ↔ ∀ e ∈ es, e.MadeOf P := by
  induction es with
  | nil => simp [Expr.AllMadeOf]
  | cons e es ih => rw [Expr.AllMadeOf, ih, List.forall_mem_cons]

mutual

theorem Expr.MadeOf.imp (hPQ : ∀ a, P a → Q a) : ∀ {e : Expr}, e.MadeOf P → e.MadeOf Q
  | .atom a, h => hPQ a h
  | .list _, h => Expr.AllMadeOf.imp hPQ h

theorem Expr.AllMadeOf.imp (hPQ : ∀ a, P a → Q a) : ∀ {es : List Expr},
    Expr.AllMadeOf P es → Expr.AllMadeOf Q es
  | [], _ => trivial
  | _ :: _, ⟨he, hes⟩ => ⟨Expr.MadeOf.imp hPQ he, Expr.AllMadeOf.imp hPQ hes⟩

end

mutual

/-- A spelled expression is made of atoms that its tokens spell. -/
theorem Spelling.madeOf : ∀ {ts : List Token} {e : Expr}, Spelling ts e →
    (∀ t ∈ ts, ∀ a, Spelling [t] (.atom a) → P a) → e.MadeOf P
  | _, _, .word hkind hword, hP => hP _ List.mem_cons_self _ (.word hkind hword)
  | _, _, .str hkind, hP => hP _ List.mem_cons_self _ (.str hkind)
  | _, _, .list _ _ hes, hP => hes.allMadeOf fun t ht =>
    hP t (List.mem_cons_of_mem _ (List.mem_append_left _ ht))

theorem Spellings.allMadeOf : ∀ {ts : List Token} {es : List Expr}, Spellings ts es →
    (∀ t ∈ ts, ∀ a, Spelling [t] (.atom a) → P a) → Expr.AllMadeOf P es
  | _, _, .nil, _ => trivial
  | _, _, .cons he hes, hP =>
    ⟨he.madeOf fun t ht => hP t (List.mem_append_left _ ht),
      hes.allMadeOf fun t ht => hP t (List.mem_append_right _ ht)⟩

end

mutual

/-- Whether an expression can be written is a matter of the integers in it. -/
theorem Expr.MadeOf.isWritable_iff : ∀ {e : Expr}, e.MadeOf P →
    (e.isWritable = true ↔ e.MadeOf Atom.Short)
  | .atom _, _ => Atom.isWritable_iff
  | .list _, h => Expr.AllMadeOf.allWritable_iff h

theorem Expr.AllMadeOf.allWritable_iff : ∀ {es : List Expr},
    Expr.AllMadeOf P es → (Expr.allWritable es = true ↔ Expr.AllMadeOf Atom.Short es)
  | [], _ => iff_of_true rfl trivial
  | _ :: _, ⟨he, hes⟩ =>
    Bool.and_eq_true_iff.trans (and_congr he.isWritable_iff hes.allWritable_iff)

end

theorem Expr.MadeOf.isWritable {e : Expr} (h : e.MadeOf Atom.Short) : e.isWritable = true :=
  h.isWritable_iff.mpr h

end MadeOf

/-! ## Reading token by token -/

/-- The reading `read` goes token by token: what it makes of the tokens `ts` while the lists
`opened` are open is told by the step of the first token, and `resume` says how it goes on. -/
structure Tokenwise {β : Type} (read : List OpenList → List Token → β)
    (resume : Step → List Token → β) : Prop where
  take : ∀ opened t ts, (∀ e, step t opened ≠ .refuse e) →
    read opened (t :: ts) = resume (step t opened) ts
  proceed : ∀ opened ts, resume (.proceed opened) ts = read opened ts

section Read

variable {β : Type} {read : List OpenList → List Token → β} {resume : Step → List Token → β}

/-- A token that supplies an expression has the effect of the expression. -/
theorem Tokenwise.supply (h : Tokenwise read resume) {t : Token} {opened opened' : List OpenList}
    {e : Expr} (hstep : step t opened = supply e opened') (ts : List Token) :
    read opened (t :: ts) = resume (MiniLisp.supply e opened') ts := by
  rw [h.take _ _ _ fun err => hstep ▸ Stream.supply_ne_refuse e opened' err, hstep]

variable (h : Tokenwise read resume)
include h

-- The lists that are open stay open underneath, and so the two go by induction on the spelling for
-- all of them and for all that may follow.
mutual

/-- Tokens that spell an expression have the effect of the expression. -/
theorem Spelling.read : ∀ {ts : List Token} {e : Expr}, Spelling ts e →
    ∀ (opened : List OpenList) (rest : List Token),
      read opened (ts ++ rest) = resume (supply e opened) rest
  | _, _, .word hkind hword, opened, rest =>
    h.supply (by simp only [step, hkind, hword]) rest
  | _, _, .str hkind, opened, rest =>
    h.supply (by simp only [step, hkind]) rest
  | _, _, @Spelling.list o c _ es ho hc hes, opened, rest => by
    have hopen : step o opened = .proceed (⟨o.pos, []⟩ :: opened) := by
      simp only [step, ho]
    have hclose : step c (⟨o.pos, es.reverse ++ []⟩ :: opened) = supply (.list es) opened := by
      simp only [step, hc, List.append_nil, List.reverse_reverse]
    rw [List.cons_append, h.take _ _ _ fun e => by simp [hopen], hopen, h.proceed,
      List.append_assoc, hes.read ⟨o.pos, []⟩ opened]
    exact h.supply hclose rest

/-- Tokens that spell expressions put them into the innermost open list. -/
theorem Spellings.read : ∀ {ts : List Token} {es : List Expr}, Spellings ts es →
    ∀ (l : OpenList) (opened : List OpenList) (rest : List Token),
      read (l :: opened) (ts ++ rest) = read (⟨l.pos, es.reverse ++ l.items⟩ :: opened) rest
  | _, _, .nil, l, opened, rest => rfl
  | _, _, .cons he hes, l, opened, rest => by
    rw [List.append_assoc, he.read (l :: opened), supply, h.proceed, hes.read]
    simp only [List.reverse_cons, List.append_assoc, List.singleton_append]

end

end Read

/-- The stream of given tokens is read token by token. -/
theorem Stream.tokenwise : Tokenwise (fun opened ts => readFrom opened (ofTokens ts))
    (fun st ts => resume st (ofTokens ts)) where
  take opened t ts h := by
    have hpeek : (ofTokens (t :: ts)).peek = (.ok (some t), ⟨some t, .tokens ts⟩) := rfl
    simp only [readFrom_eq, hpeek]
    cases hstep : step t opened with
    | refuse e => exact absurd hstep (h e)
    | _ => rfl
  proceed opened ts := rfl

/-! ## All the expressions of given tokens -/

/-- The failure that the end of the tokens is while lists are open. -/
def unclosed : List OpenList → Option ReadError
  | [] => none
  | l :: _ => some (.unterminatedList l.pos)

/-- The expressions that the tokens spell, with the given lists open to begin with, and the failure
that cuts them short; `failure` is what comes after the tokens, if it is not their end. -/
def readTokens (failure : Option ReadError) :
    List OpenList → List Token → List Expr × Option ReadError
  | opened, [] => ([], failure.or (unclosed opened))
  | opened, t :: ts =>
    match step t opened with
    | .refuse e => ([], some e)
    | .fail e => ([], some e)
    | .complete e => (e :: (readTokens failure [] ts).1, (readTokens failure [] ts).2)
    | .proceed opened' => readTokens failure opened' ts

/-- What becomes of the reading of all expressions after a step. -/
def resumeTokens (failure : Option ReadError) : Step → List Token → List Expr × Option ReadError
  | .refuse e, _ => ([], some e)
  | .fail e, _ => ([], some e)
  | .complete e, ts => (e :: (readTokens failure [] ts).1, (readTokens failure [] ts).2)
  | .proceed opened, ts => readTokens failure opened ts

theorem readTokens_cons (failure : Option ReadError) (opened : List OpenList) (t : Token)
    (ts : List Token) :
    readTokens failure opened (t :: ts) = resumeTokens failure (step t opened) ts := by
  rw [readTokens]
  cases step t opened <;> rfl

theorem tokenwise_readTokens (failure : Option ReadError) :
    Tokenwise (readTokens failure) (resumeTokens failure) where
  take opened t ts _ := readTokens_cons failure opened t ts
  proceed _ _ := rfl

namespace Stream

/-- What an answer of the reader comes to when all that follows is read as well. -/
def andAll : Except ReadError (Option Expr) × Stream → List Expr × Option ReadError
  | (.error e, _) => ([], some e)
  | (.ok none, _) => ([], none)
  | (.ok (some e), s) => (e :: s.readAll.1, s.readAll.2.1)

theorem readAll_eq_andAll (s : Stream) : (s.readAll.1, s.readAll.2.1) = andAll (s.readFrom []) := by
  rw [readAll_eq, readExpr]
  split
  · next h => rw [h]; rfl
  · next h => rw [h]; rfl
  · next h => rw [h]; rfl

/-- To read tokens as they are needed gives what comes of reading all of them at once. -/
theorem andAll_readFrom (opened : List OpenList) (src : Source) :
    andAll (readFrom opened ⟨none, src⟩) = readTokens src.drain.2 opened src.drain.1 := by
  induction hsize : src.size using Nat.strong_induction_on generalizing opened src with
  | _ n ih =>
    rw [Source.drain_eq, readFrom_eq, peek]
    rcases hnext : src.next with ⟨e | ⟨_ | t⟩, src'⟩
    · rfl
    · cases opened <;> rfl
    · have hlt : src'.size < n := hsize ▸ Source.size_next_lt hnext
      have hrest := fun opened' => ih _ hlt opened' src' rfl
      simp only [readTokens_cons]
      cases hstep : step t opened with
      | refuse e | fail e => rfl
      | proceed opened' => exact hrest opened'
      | complete e =>
        have hall := readAll_eq_andAll ⟨none, src'⟩
        rw [hrest []] at hall
        exact congrArg (fun r => (e :: r.1, r.2)) hall

end Stream

/-- All the expressions of a text are those of its tokens. -/
theorem parseAll_eq_readTokens (s : String) : parseAll s =
    readTokens (Source.ofText s).drain.2 [] (Source.ofText s).drain.1 := by
  rw [← Stream.andAll_readFrom]
  exact Stream.readAll_eq_andAll _

/-! ## Open lists -/

/-- The tokens begin an expression that is not complete and leave the given lists open. -/
inductive Opens : List Token → List OpenList → Prop
  | nil : Opens [] []
  | cons {ts us : List Token} {o : Token} {items : List Expr} {opened : List OpenList} :
      Opens ts opened → o.kind = .opening → Spellings us items.reverse →
      Opens (ts ++ o :: us) (⟨o.pos, items⟩ :: opened)

/-- What a step says of the tokens up to and including the one that took it. -/
def Step.Spelled (ts : List Token) : Step → Prop
  | .refuse _ => True
  | .fail _ => True
  | .complete e => Spelling ts e
  | .proceed opened => Opens ts opened

theorem Opens.supply {ts us : List Token} {opened : List OpenList} {e : Expr}
    (h : Opens ts opened) (he : Spelling us e) : (supply e opened).Spelled (ts ++ us) := by
  cases h with
  | nil => exact he
  | cons h ho hitems =>
    rw [List.append_assoc, List.cons_append]
    refine .cons h ho ?_
    rw [List.reverse_cons]
    exact hitems.append_singleton he

/-- A token after tokens that leave lists open completes the expression that they begin, or leaves
other lists open. -/
theorem Opens.step {ts : List Token} {opened : List OpenList} (h : Opens ts opened) (t : Token) :
    (step t opened).Spelled (ts ++ [t]) := by
  unfold MiniLisp.step
  split
  · next hkind =>
    split
    · next hword => exact h.supply (.word hkind hword)
    · trivial
  · next hkind => exact h.supply (.str hkind)
  · next hkind => exact .cons h hkind .nil
  · next hkind =>
    cases h with
    | nil => trivial
    | cons h ho hitems =>
      rw [List.append_assoc]
      exact h.supply (.list ho hkind hitems)
  · trivial

/-- Tokens that leave lists open can be taken as read. -/
theorem Opens.read {β : Type} {read : List OpenList → List Token → β}
    {resume : Step → List Token → β} (hread : Tokenwise read resume) {ts : List Token}
    {opened : List OpenList} (h : Opens ts opened) (rest : List Token) :
    read [] (ts ++ rest) = read opened rest := by
  induction h generalizing rest with
  | nil => rfl
  | @cons ts us o items opened _ ho hitems ih =>
    have hopen : MiniLisp.step o opened = .proceed (⟨o.pos, []⟩ :: opened) := by
      simp only [MiniLisp.step, ho]
    rw [List.append_assoc, ih, List.cons_append, hread.take _ _ _ fun e => by simp [hopen], hopen,
      hread.proceed, hitems.read hread, List.reverse_reverse, List.append_nil]

/-- The expressions read are spelled by the tokens, up to where nothing is read. -/
theorem exists_spellings_of_readTokens (failure : Option ReadError) {ts : List Token}
    {opened : List OpenList} (h : Opens ts opened) (us : List Token) :
    ∃ ps rest, ts ++ us = ps ++ rest ∧ Spellings ps (readTokens failure opened us).1 ∧
      readTokens failure [] rest = ([], (readTokens failure opened us).2) := by
  induction us generalizing ts opened with
  | nil =>
    have hread := h.read (tokenwise_readTokens failure) []
    rw [List.append_nil] at hread
    exact ⟨[], ts, List.append_nil ts, .nil, hread⟩
  | cons t us ih =>
    have hstep := h.step t
    have hread := h.read (tokenwise_readTokens failure) (t :: us)
    rw [readTokens_cons] at hread ⊢
    cases hst : MiniLisp.step t opened with
    | refuse e | fail e =>
      rw [hst] at hread
      exact ⟨[], ts ++ t :: us, rfl, .nil, hread⟩
    | proceed opened' =>
      rw [hst] at hstep
      have hih := ih hstep
      rw [List.append_assoc] at hih
      exact hih
    | complete e =>
      rw [hst] at hstep
      obtain ⟨ps, rest, heq, hps, hrest⟩ := ih .nil
      refine ⟨(ts ++ [t]) ++ ps, rest, ?_, .cons hstep hps, hrest⟩
      rw [List.append_assoc, ← heq, List.append_assoc]
      rfl

/-- The first of the expressions read is spelled by the first of the tokens. -/
theorem exists_spelling_of_readTokens {failure err : Option ReadError} {ts : List Token} {e : Expr}
    {es : List Expr} (h : readTokens failure [] ts = (e :: es, err)) :
    ∃ p r, ts = p ++ r ∧ Spelling p e := by
  obtain ⟨ps, rest, hts, hps, -⟩ := exists_spellings_of_readTokens failure .nil ts
  rw [List.nil_append] at hts
  rw [h] at hps
  cases hps with
  | @cons p us _ _ he _ => exact ⟨p, us ++ rest, by rw [hts, List.append_assoc], he⟩

/-- Where nothing is read, no tokens spell anything. -/
theorem not_spelling_of_readTokens {failure err : Option ReadError} {ts us : List Token} {e : Expr}
    (h : readTokens failure [] ts = ([], err)) (hus : us <+: ts) : ¬ Spelling us e := by
  intro he
  obtain ⟨rest, rfl⟩ := hus
  rw [he.read (tokenwise_readTokens failure)] at h
  cases h

/-! ## One expression off a stream of tokens -/

theorem drain_tokens (ts : List Token) : (Source.tokens ts).drain = (ts, none) := by
  induction ts with
  | nil => rw [Source.drain_eq]; rfl
  | cons t ts ih =>
    rw [Source.drain_eq, Source.next]
    simp only [ih]

theorem Spelling.readExpr_ofTokens {p : List Token} {e : Expr} (h : Spelling p e)
    (r : List Token) :
    (Stream.ofTokens (p ++ r)).readExpr = (.ok (some e), Stream.ofTokens r) :=
  h.read Stream.tokenwise [] r

/-- Among the beginnings of given tokens, one at most spells an expression, and it spells only
one. -/
theorem Spelling.unique {p p' r r' : List Token} {e e' : Expr} (h : Spelling p e)
    (h' : Spelling p' e') (heq : p ++ r = p' ++ r') : p = p' ∧ e = e' := by
  have hread := h.readExpr_ofTokens r
  rw [heq, h'.readExpr_ofTokens r'] at hread
  cases hread
  exact ⟨List.append_cancel_right heq, rfl⟩

/-- **The reader accepts exactly its grammar.** A stream of tokens gives an expression and has the
tokens `r` left if and only if the tokens before `r` spell the expression. So one beginning of the
tokens at most spells an expression, and only one expression; and what is read is made of lists and
of atoms that single tokens spell, with nothing in the place of an item that is not there. -/
theorem readExpr_ofTokens_iff (ts : List Token) :
    (∀ e s, (Stream.ofTokens ts).readExpr = (.ok (some e), s) ↔
      ∃ p r, ts = p ++ r ∧ s = Stream.ofTokens r ∧ Spelling p e) ∧
    (∀ p p' e e', p <+: ts → p' <+: ts → Spelling p e → Spelling p' e' → p = p' ∧ e = e') ∧
    ∀ e s, (Stream.ofTokens ts).readExpr = (.ok (some e), s) →
      e.MadeOf fun a => ∃ t ∈ ts, Spelling [t] (.atom a) := by
  have hsound : ∀ e s, (Stream.ofTokens ts).readExpr = (.ok (some e), s) →
      ∃ p r, ts = p ++ r ∧ s = Stream.ofTokens r ∧ Spelling p e := by
    intro e s h
    have hall := Stream.andAll_readFrom [] (.tokens ts)
    rw [drain_tokens] at hall
    have hfrom : Stream.readFrom [] ⟨none, .tokens ts⟩ = (.ok (some e), s) := h
    rw [hfrom] at hall
    obtain ⟨p, r, rfl, hp⟩ := exists_spelling_of_readTokens hall.symm
    have hread := hp.readExpr_ofTokens r
    rw [h] at hread
    exact ⟨p, r, rfl, (Prod.mk.inj hread).2, hp⟩
  refine ⟨fun e s => ⟨hsound e s, ?_⟩, ?_, ?_⟩
  · rintro ⟨p, r, rfl, rfl, hp⟩
    exact hp.readExpr_ofTokens r
  · rintro p p' e e' ⟨r, hr⟩ ⟨r', hr'⟩ hp hp'
    exact hp.unique hp' (hr.trans hr'.symm)
  · intro e s h
    obtain ⟨p, r, rfl, -, hp⟩ := hsound e s h
    exact hp.madeOf fun t ht a ha => ⟨t, List.mem_append_left r ht, ha⟩

end MiniLisp
