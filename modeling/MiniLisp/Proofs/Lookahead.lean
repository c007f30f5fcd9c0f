import MiniLisp.Proofs.Cuts

/-!
# Looking no further than the first expression

When one expression is asked for, what comes after the last of its tokens does not matter, whether
it can be read or not: another text in its place gives the same expression, unless it goes on with
the word that the expression is. A parenthesis that is closed while none is open is put down to its
place whatever follows it.

## Main definitions

* `EndsAt s e k`: the first expression of the text `s` is `e`, and its last token ends at `k`
* `continued s k u`: the text `s` up to the offset `k`, and then the text `u`
* `Expr.IsWord e`: the expression `e` is a number or a symbol

## Main results

* `Lexing.through`: a text up to the end of one of its tokens
* `existsUnique_endsAt`: the first expression of a text ends at one offset
* `parse_continued`: what is read does not depend on what comes after it
-/

namespace MiniLisp

/-- The first expression of the text is `e`, and the last of its tokens ends at the offset `k`. -/
def EndsAt (s : String) (e : Expr) (k : Nat) : Prop :=
  ∃ ts t rest, (Source.ofText s).drain.1 = ts ++ t :: rest ∧ Spelling (ts ++ [t]) e ∧
    t.pos + t.raw.length = (k : Int)

/-- The text up to the offset `k`, and another text after it. -/
def continued (s : String) (k : Nat) (u : String) : String :=
  String.ofList (s.toList.take k ++ u.toList)

/-- The expression is a number or a symbol, which words spell. -/
inductive Expr.IsWord : Expr → Prop
  | number (n : Number) : IsWord (.atom (.number n))
  | symbol (name : String) : IsWord (.atom (.symbol name))

/-! ## Expressions and their last tokens -/

theorem ofWord_isWord {w : String} {a : Atom} (h : Atom.ofWord w = .ok a) :
    (Expr.atom a).IsWord := by
  unfold Atom.ofWord at h
  split at h
  · cases h
    exact .symbol w
  · split at h
    · split at h <;> cases h
      exact .number _
    · cases h
      exact .number _

theorem Spelling.ne_nil {ts : List Token} {e : Expr} (h : Spelling ts e) : ts ≠ [] := by
  cases h <;> exact List.cons_ne_nil _ _

/-- Only the spelling of a number or of a symbol ends with a word. -/
theorem Spelling.isWord {ts : List Token} {t : Token} {e : Expr} (h : Spelling ts e)
    (ht : ts.getLast? = some t) (hkind : t.kind = .word) : e.IsWord := by
  cases h with
  | word _ hword => exact ofWord_isWord hword
  | str hstr =>
    cases ht
    cases hstr.symm.trans hkind
  | @list o c us es _ hclosing =>
    rw [← List.cons_append, List.getLast?_concat] at ht
    cases ht
    cases hclosing.symm.trans hkind

/-! ## A text up to the end of a token -/

/-- A text up to the end of one of its tokens has the tokens up to it. It ends with this token. -/
theorem Lexing.through {pos : Nat} {s : List Char} {ts rest : List Token} {t : Token}
    {failure : Option ReadError} (h : Lexing pos s (ts ++ t :: rest) failure) :
    ∃ a b, s = a ++ b ∧ Lexing pos a (ts ++ [t]) none ∧
      t.pos + t.raw.length = (pos + a.length : Nat) ∧ t.raw <:+ a := by
  induction ts generalizing pos s with
  | nil =>
    cases h with
    | @token _ gap b _ _ _ hgap ht hpos _ _ =>
      refine ⟨gap ++ (t.raw ++ []), b, by simp, .token hgap ht hpos (fun _ => nofun)
        (.finished isBlanks_nil), ?_, by simp⟩
      simp only [List.length_append, List.length_nil]
      omega
  | cons t' ts ih =>
    cases h with
    | @token _ gap _ _ _ _ hgap ht' hpos hends hrest =>
      obtain ⟨a, b, rfl, ha, hend, hsuffix⟩ := ih hrest
      refine ⟨gap ++ (t'.raw ++ a), b, by simp,
        .token hgap ht' hpos (fun hkind => (hends hkind).of_append) ha, ?_, ?_⟩
      · simp only [List.length_append]
        omega
      · exact (hsuffix.trans (List.suffix_append _ _)).trans (List.suffix_append _ _)

section Continued

variable {s : String} {ts rest : List Token} {t : Token}

theorem through_drain (h : (Source.ofText s).drain.1 = ts ++ t :: rest) :
    ∃ a b, s.toList = a ++ b ∧ Lexing 0 a (ts ++ [t]) none ∧
      t.pos + t.raw.length = (a.length : Int) ∧ t.raw <:+ a := by
  have hlexing := lexing_drain s.toList 0
  rw [show (Source.text s.toList 0).drain.1 = _ from h] at hlexing
  simpa using hlexing.through

/-- A text up to the end of a token that no word goes on with has the tokens up to it, whatever
stands in the place of the rest. -/
theorem drain_continued (h : (Source.ofText s).drain.1 = ts ++ t :: rest) {k : Nat}
    (hk : t.pos + t.raw.length = (k : Int)) {u : String} (hu : t.kind = .word → EndsWord u.toList) :
    ∃ us failure, (Source.ofText (continued s k u)).drain = (ts ++ t :: us, failure) := by
  obtain ⟨a, b, hs, ha, hend, g, rfl⟩ := through_drain h
  obtain rfl : k = (g ++ t.raw).length := by omega
  have hlexeme := ha.isLexeme t (List.mem_append_right _ (List.mem_singleton_self t))
  have hcut : ¬ Glued (g ++ t.raw) u.toList := by
    rw [glued_append_iff hlexeme.raw_ne_nil, hlexeme.glued_iff]
    exact fun hglued => hglued.2 (hu hglued.1)
  have hall := (ha.append hcut (lexing_drain u.toList _)).drain_eq
  rw [continued, hs, List.take_left, Source.ofText, String.toList_ofList, hall, List.append_assoc]
  exact ⟨_, _, rfl⟩

end Continued

/-! ## The end of the first expression -/

/-- The first expression of a text ends at one offset. -/
theorem existsUnique_endsAt {s : String} {e : Expr} (h : parse s = .ok e) : ∃! k, EndsAt s e k := by
  obtain ⟨p, r, hdrain, hp⟩ := exists_spelling_of_parse h
  obtain ⟨ts, t, rfl⟩ := (List.eq_nil_or_concat p).resolve_left hp.ne_nil
  rw [List.concat_eq_append] at hdrain hp
  have hdrain' : (Source.ofText s).drain.1 = ts ++ t :: r := by simp [hdrain]
  obtain ⟨a, -, -, -, hend, -⟩ := through_drain hdrain'
  refine ⟨a.length, ⟨ts, t, r, hdrain', hp, hend⟩, ?_⟩
  rintro k' ⟨ts', t', r', hdrain'', hp', hk'⟩
  have heq : ts' ++ [t'] ++ r' = ts ++ [t] ++ r := by
    rw [← hdrain, hdrain'', List.append_assoc]
    rfl
  obtain ⟨hts, -⟩ := hp'.unique hp heq
  obtain ⟨-, ht⟩ := List.append_inj' hts rfl
  cases ht
  omega

/-! ## A parenthesis that is closed while none is open -/

/-- What refuses a token as a parenthesis closed while none is open. -/
theorem step_eq_unmatchedClosing {t : Token} {opened : List OpenList} {q : Int}
    (h : step t opened = .refuse (.unmatchedClosing q)) :
    t.kind = .closing ∧ opened = [] ∧ t.pos = q := by
  have hsupply := fun e opened => Stream.supply_ne_refuse e opened (.unmatchedClosing q)
  unfold step at h
  cases hkind : t.kind with
  | closing =>
    rw [hkind] at h
    cases opened with
    | nil =>
      cases h
      exact ⟨rfl, rfl, rfl⟩
    | cons l opened => exact absurd h (hsupply _ _)
  | word =>
    rw [hkind] at h
    simp only at h
    split at h
    · exact absurd h (hsupply _ _)
    · cases h
  | str =>
    rw [hkind] at h
    exact absurd h (hsupply _ _)
  | opening | other =>
    rw [hkind] at h
    cases h

/-- If that is what the reading of the first expression fails with, the first token is the
parenthesis. -/
theorem exists_closing_of_readTokens {failure : Option ReadError} {opened : List OpenList}
    {ts : List Token} {q : Int} (hfailure : ∀ e, failure = some e → ∃ p, e = .unterminatedString p)
    (h : readTokens failure opened ts = ([], some (.unmatchedClosing q))) :
    opened = [] ∧ ∃ t rest, ts = t :: rest ∧ t.kind = .closing ∧ t.pos = q := by
  induction ts generalizing opened with
  | nil =>
    have hend : failure.or (unclosed opened) = some (.unmatchedClosing q) := (Prod.mk.inj h).2
    cases failure with
    | some e =>
      obtain ⟨p, rfl⟩ := hfailure e rfl
      cases hend
    | none => cases opened <;> cases hend
  | cons t ts ih =>
    have hat := step_at t opened
    rw [readTokens_cons] at h
    cases hst : step t opened with
    | refuse e =>
      rw [hst] at h
      cases h
      obtain ⟨hkind, hopened, hpos⟩ := step_eq_unmatchedClosing hst
      exact ⟨hopened, t, ts, rfl, hkind, hpos⟩
    | fail e =>
      rw [hst] at h hat
      cases h
      cases hat
    | complete e =>
      rw [hst] at h
      cases h
    | proceed opened' =>
      rw [hst] at h hat
      exact absurd (ih h).1 hat.1

theorem exists_closing_of_parse {s : String} {q : Int}
    (h : parse s = .error (.unmatchedClosing q)) :
    ∃ t rest, (Source.ofText s).drain.1 = t :: rest ∧ t.kind = .closing ∧ t.pos = q := by
  have hnone : parseAll s = ([], some (.unmatchedClosing q)) := by
    rw [parse_eq_firstOf] at h
    revert h
    rcases parseAll s with ⟨_ | _, _ | _⟩ <;> rintro ⟨⟩
    rfl
  rw [parseAll_eq_readTokens] at hnone
  exact (exists_closing_of_readTokens (lexing_drain s.toList 0).failure_eq hnone).2

/-- **What is read does not depend on what comes after it.** An expression read off a text ends at
one offset, and any other text may follow there, as long as it does not go on with a word if the
expression is one: the same expression is read. And a parenthesis that is closed while none is open
is what reading fails with whatever follows the parenthesis. -/
theorem parse_continued (s : String) :
    (∀ e, parse s = .ok e → (∃! k, EndsAt s e k) ∧
      ∀ k u, EndsAt s e k → (e.IsWord → EndsWord u.toList) → parse (continued s k u) = .ok e) ∧
    ∀ q, parse s = .error (.unmatchedClosing q) → ∃ p : Nat, q = p ∧
      ∀ u, parse (continued s (p + 1) u) = .error (.unmatchedClosing q) := by
  refine ⟨fun e h => ⟨existsUnique_endsAt h, ?_⟩, fun q h => ?_⟩
  · rintro k u ⟨ts, t, rest, hdrain, hspelling, hk⟩ hu
    have hword : t.kind = .word → EndsWord u.toList :=
      fun hkind => hu (hspelling.isWord List.getLast?_concat hkind)
    obtain ⟨us, failure, hall⟩ := drain_continued hdrain hk hword
    have hread := hspelling.read (tokenwise_readTokens failure) [] us
    rw [List.append_assoc] at hread
    rw [parse_eq_of_drain hall]
    exact congrArg (firstOf _) hread
  · obtain ⟨t, rest, hdrain, hkind, hpos⟩ := exists_closing_of_parse h
    have hdrain' : (Source.ofText s).drain.1 = [] ++ t :: rest := hdrain
    obtain ⟨a, -, -, ha, hend, -⟩ := through_drain hdrain'
    have hraw : t.raw.length = 1 := by
      rw [(ha.isLexeme t (List.mem_singleton_self t)).raw_closing hkind]
      rfl
    have hbegin := ha.pairwise_places.1 t.pos (by simp [places])
    obtain ⟨p, hp⟩ : ∃ p : Nat, t.pos = p := ⟨t.pos.toNat, by omega⟩
    refine ⟨p, by omega, fun u => ?_⟩
    obtain ⟨us, failure, hall⟩ := drain_continued (k := p + 1) hdrain' (by omega)
      (u := u) fun hword => by cases hkind.symm.trans hword
    have hstep : step t [] = .refuse (.unmatchedClosing q) := by
      simp only [step, hkind, hpos]
    rw [parse_eq_of_drain hall, List.nil_append, readTokens_cons, hstep]
    rfl

/-- After the list neither the word that touches it nor the quote and the parenthesis matter. -/
theorem parse_continued_unreadable :
    EndsAt "(f 1) x" (.list [.symbol "f", .atom (.number (.int 1))]) 5 ∧
      parse (continued "(f 1) x" 5 "g\")") =
        .ok (.list [.symbol "f", .atom (.number (.int 1))]) := by
  have hdrain : (Source.ofText "(f 1) x").drain =
      ([⟨.opening, "(", 0⟩, ⟨.word, "f", 1⟩, ⟨.word, "1", 3⟩, ⟨.closing, ")", 4⟩,
        ⟨.word, "x", 6⟩], none) :=
    Source.drain_token rfl <| Source.drain_token rfl <| Source.drain_token rfl <|
      Source.drain_token rfl <| Source.drain_token rfl <| Source.drain_finished rfl
  have hparse : parse "(f 1) x" = .ok (.list [.symbol "f", .atom (.number (.int 1))]) := by
    rw [parse_eq_of_drain hdrain]
    rfl
  have hends : EndsAt "(f 1) x" (.list [.symbol "f", .atom (.number (.int 1))]) 5 := by
    refine ⟨[⟨.opening, "(", 0⟩, ⟨.word, "f", 1⟩, ⟨.word, "1", 3⟩], ⟨.closing, ")", 4⟩,
      [⟨.word, "x", 6⟩], by rw [hdrain]; rfl, ?_, rfl⟩
    have hf : Spelling [⟨.word, "f", 1⟩] (.symbol "f") := .word rfl rfl
    have hone : Spelling [⟨.word, "1", 3⟩] (.atom (.number (.int 1))) := .word rfl rfl
    exact .list rfl rfl (.cons hf (.cons hone .nil))
  exact ⟨hends, (((parse_continued "(f 1) x").1 _ hparse).2 5 _ hends nofun)⟩

end MiniLisp
