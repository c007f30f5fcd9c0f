import MiniLisp.Proofs.Writable
import MiniLisp.Proofs.WrittenNumbers
import MiniLisp.Reading.Expr

/-!
# Expressions read back from their texts

An expression that is written as program text and read again is the same expression: the kinds of
its atoms are kept, and so are the boundaries between them, however the texts of several
expressions are set apart by blanks.

## Main definitions

* `Expr.Readable`: an expression that can be written and read again
* `spaced gap es`: the texts of the expressions with gaps between them

## Main results

* `Stream.readFrom_text`: the text of an expression is read as the expression, and no further
* `parseAll_spaced`: the texts of expressions with blanks between them are read as the expressions
-/

namespace MiniLisp

/-! ## Expressions that can be read back -/

/-- The atom can be read back from its text: a number if it is not too long and finite, a string if
it holds no double quote, a symbol if it is a word that does not stand for something else. -/
def Atom.Readable : Atom → Prop
  | number n => n.Readable
  | str s => '"' ∉ s.toList
  | symbol s => s ≠ "" ∧ (∀ c ∈ s.toList, isWordChar c = true) ∧ Atom.ofWord s = .ok (.symbol s)

mutual

/-- The expression can be read back from its text: its atoms can, and it consists of nothing
else. -/
def Expr.Readable : Expr → Prop
  | .atom a => a.Readable
  | .list es => Expr.ReadableAll es
  | .embedded _ => False

/-- Each of the expressions can be read back. -/
def Expr.ReadableAll : List Expr → Prop
  | [] => True
  | e :: es => e.Readable ∧ Expr.ReadableAll es

end

theorem Number.Readable.isWritable {n : Number} (h : n.Readable) : n.isWritable = true := by
  rw [Number.isWritable_iff]
  cases n with
  | int i => exact h
  | double d => trivial

mutual

/-- What can be read back from its text has a text. -/
theorem Expr.Readable.isWritable : ∀ {e : Expr}, e.Readable → e.isWritable = true
  | .atom (.number _), h => Number.Readable.isWritable h
  | .atom (.str _), _ => rfl
  | .atom (.symbol _), _ => rfl
  | .list _, h => Expr.ReadableAll.allWritable h

theorem Expr.ReadableAll.allWritable : ∀ {es : List Expr}, Expr.ReadableAll es →
    Expr.allWritable es = true
  | [], _ => rfl
  | _ :: _, ⟨he, hes⟩ =>
    Bool.and_eq_true_iff.mpr ⟨he.isWritable, Expr.ReadableAll.allWritable hes⟩

end

/-! ## Words -/

theorem isWordChar_of_isDigit {c : Char} (h : c.isDigit = true) : isWordChar c = true := by
  have hc : 48 ≤ c.toNat ∧ c.toNat ≤ 57 := by
    simp only [Char.isDigit, Bool.and_eq_true, decide_eq_true_eq] at h
    exact h
  have hblank : isBlank c = false := by
    rw [isBlank, List.any_eq_false]
    simp only [blankRanges, List.mem_cons, List.not_mem_nil, or_false]
    rintro r (rfl | rfl | rfl | rfl | rfl | rfl | rfl | rfl | rfl | rfl) <;> simp <;> omega
  have hne : ∀ c' : Char, c'.toNat < 48 → (c != c') = true := by
    intro c' hc'
    rw [bne_iff_ne]
    rintro rfl
    omega
  rw [isWordChar, hblank, hne '(' (by decide), hne ')' (by decide), hne '"' (by decide)]
  rfl

/-- Nothing in a number word ends a word. -/
theorem Numeral.Parts.isWordChar_of_mem_text (n : Numeral.Parts) {c : Char} (h : c ∈ n.text) :
    isWordChar c = true := by
  rw [text, List.mem_append, List.mem_append, List.mem_append] at h
  rcases h with h | h | h | h
  · unfold signText at h
    split at h
    · rw [List.mem_singleton.mp h]
      decide
    · cases h
  · exact isWordChar_of_isDigit (n.isDigit_whole c h)
  · cases hf : n.fraction with
    | none =>
      rw [hf] at h
      cases h
    | some ds =>
      rw [hf] at h
      rcases List.mem_cons.mp h with rfl | h
      · decide
      · exact isWordChar_of_isDigit (n.isDigit_fraction ds hf c h)
  · cases hp : n.power with
    | none =>
      rw [hp] at h
      cases h
    | some p =>
      rw [hp] at h
      simp only [powerText, List.mem_cons] at h
      rcases h with rfl | rfl | h
      · decide
      · cases p.1 <;> decide
      · exact isWordChar_of_isDigit (n.isDigit_power p hp c h)

theorem Numeral.Parts.text_ne_nil (n : Numeral.Parts) : n.text ≠ [] := by
  simp [text, n.whole_ne_nil]

/-- A word with the atom that it stands for. -/
structure Spells (w : String) (a : Atom) : Prop where
  ne_nil : w.toList ≠ []
  isWordChar : ∀ c ∈ w.toList, isWordChar c = true
  ofWord : Atom.ofWord w = .ok a

/-- The text of an atom that is no string is a word that stands for it. -/
theorem Atom.Readable.spells {a : Atom} (h : a.Readable) (hs : ∀ s, a ≠ .str s) :
    Spells a.text a := by
  cases a with
  | number n =>
    obtain ⟨p, htext, hword⟩ := Number.exists_parts h
    refine ⟨?_, ?_, hword⟩
    · rw [Atom.text, htext]
      exact p.text_ne_nil
    · intro c hc
      rw [Atom.text, htext] at hc
      exact p.isWordChar_of_mem_text hc
  | str s => exact absurd rfl (hs s)
  | symbol s =>
    obtain ⟨hne, hchars, hword⟩ := h
    exact ⟨by simpa [Atom.text] using hne, hchars, hword⟩

/-! ## Tokens -/

/-- Something that may come after a word: it does not go on with it. -/
def EndsWord (rest : List Char) : Prop := ∀ c ∈ rest.head?, isWordChar c = false

theorem takeWhile_append_of_ends {p : Char → Bool} {w rest : List Char} (hw : ∀ c ∈ w, p c = true)
    (hrest : ∀ c ∈ rest.head?, p c = false) :
    (w ++ rest).takeWhile p = w ∧ (w ++ rest).dropWhile p = rest := by
  rw [List.takeWhile_append_of_pos hw, List.dropWhile_append_of_pos hw]
  cases rest with
  | nil => simp
  | cons c rest =>
    have hc := hrest c rfl
    simp [hc]

theorem scan_blank {c : Char} (h : isBlank c = true) (s : List Char) (pos : Nat) :
    scan (c :: s) pos = scan s (pos + 1) := by
  rw [scan, if_pos h]

/-- A word that ends is a token. -/
theorem scan_word {w rest : List Char} (hne : w ≠ []) (hw : ∀ c ∈ w, isWordChar c = true)
    (hrest : EndsWord rest) (pos : Nat) :
    scan (w ++ rest) pos = .token ⟨.word, String.ofList w, pos⟩ rest (pos + w.length) := by
  obtain ⟨c, w, rfl⟩ := List.exists_cons_of_ne_nil hne
  have hc := hw c List.mem_cons_self
  obtain ⟨htake, hdrop⟩ := takeWhile_append_of_ends
    (fun c' h => hw c' (List.mem_cons_of_mem _ h)) hrest
  simp only [isWordChar, Bool.and_eq_true, Bool.not_eq_true', bne_iff_ne] at hc
  obtain ⟨⟨⟨hblank, hopen⟩, hclose⟩, hquote⟩ := hc
  rw [List.cons_append, scan, hblank, if_neg Bool.false_ne_true, if_neg hopen, if_neg hclose,
    if_neg hquote, scanWord, htake, hdrop]

/-- A string between double quotes is a token. -/
theorem scan_string {body : List Char} (hbody : '"' ∉ body) (rest : List Char) (pos : Nat) :
    scan ('"' :: (body ++ '"' :: rest)) pos =
      .token ⟨.str, String.ofList body, pos⟩ rest (pos + body.length + 2) := by
  have hquote : ∀ c ∈ body, (c != '"') = true := by
    intro c hc
    rw [bne_iff_ne]
    rintro rfl
    exact hbody hc
  have hend : ∀ c ∈ ('"' :: rest).head?, (c != '"') = false := by simp
  obtain ⟨htake, hdrop⟩ := takeWhile_append_of_ends hquote hend
  have hblank : isBlank '"' = false := by decide
  rw [scan, hblank, scanString, htake, hdrop]
  rfl

/-! ## Reading -/

namespace Stream

/-- What becomes of the reading after a token, with the stream after it. -/
def resume : Step → Stream → Except ReadError (Option Expr) × Stream
  | .refuse e, s => (.error e, s)
  | .fail e, s => (.error e, s)
  | .complete e, s => (.ok (some e), s)
  | .proceed opened, s => s.readFrom opened

/-- Reading goes by the next token alone. -/
theorem readFrom_eq (opened : List OpenList) (s : Stream) :
    readFrom opened s =
      match s.peek with
      | (.error e, s') => (.error e, s')
      | (.ok none, s') => (atEnd opened, s')
      | (.ok (some t), s') =>
        match step t opened with
        | .refuse e => (.error e, s')
        | st => resume st s'.advance.2 := by
  rw [readFrom]
  split
  · next hp => rw [hp]
  · next hp => rw [hp]
  · next t s' hp =>
    simp only [hp]
    cases step t opened <;> rfl

/-- The first token of a text is taken. -/
theorem readFrom_token {s rest : List Char} {pos pos' : Nat} {t : Token} {opened : List OpenList}
    (h : scan s pos = .token t rest pos') (ht : ∀ e, step t opened ≠ .refuse e) :
    readFrom opened ⟨none, .text s pos⟩ = resume (step t opened) ⟨none, .text rest pos'⟩ := by
  have hpeek : (⟨none, .text s pos⟩ : Stream).peek =
      (.ok (some t), ⟨some t, .text rest pos'⟩) := by
    simp only [peek, Source.next, h]
  simp only [readFrom_eq, hpeek]
  cases hstep : step t opened with
  | refuse e => exact absurd hstep (ht e)
  | _ => rfl

/-- A blank is skipped. -/
theorem readFrom_blank {c : Char} (h : isBlank c = true) (s : List Char) (pos : Nat)
    (opened : List OpenList) : readFrom opened ⟨none, .text (c :: s) pos⟩ =
      readFrom opened ⟨none, .text s (pos + 1)⟩ := by
  have hpeek : (⟨none, .text (c :: s) pos⟩ : Stream).peek =
      (⟨none, .text s (pos + 1)⟩ : Stream).peek := by
    simp only [peek, Source.next, scan_blank h]
  rw [readFrom_eq, hpeek, ← readFrom_eq]

theorem supply_ne_refuse (e : Expr) (opened : List OpenList) (err : ReadError) :
    supply e opened ≠ .refuse err := by
  cases opened <;> simp [supply]

variable (opened : List OpenList)

/-- A word is read as the atom that it stands for. -/
theorem readFrom_word {w : String} {a : Atom} (h : Spells w a) {rest : List Char}
    (hrest : EndsWord rest) (pos : Nat) :
    ∃ pos', readFrom opened ⟨none, .text (w.toList ++ rest) pos⟩ =
      resume (supply (.atom a) opened) ⟨none, .text rest pos'⟩ := by
  have hstep : step ⟨.word, String.ofList w.toList, pos⟩ opened = supply (.atom a) opened := by
    simp only [step, String.ofList_toList, h.ofWord]
  refine ⟨pos + w.toList.length, ?_⟩
  rw [readFrom_token (scan_word h.ne_nil h.isWordChar hrest pos), hstep]
  rw [hstep]
  exact supply_ne_refuse _ opened

/-- A string is read as it stands. -/
theorem readFrom_string {s : String} (h : '"' ∉ s.toList) (rest : List Char) (pos : Nat) :
    ∃ pos', readFrom opened ⟨none, .text ((stringText s).toList ++ rest) pos⟩ =
      resume (supply (.atom (.str s)) opened) ⟨none, .text rest pos'⟩ := by
  have htext : (stringText s).toList ++ rest = '"' :: (s.toList ++ '"' :: rest) := by
    simp [stringText]
  have hstep : step ⟨.str, String.ofList s.toList, pos⟩ opened =
      supply (.atom (.str s)) opened := by
    simp only [step, String.ofList_toList]
  refine ⟨pos + s.toList.length + 2, ?_⟩
  rw [htext, readFrom_token (scan_string h rest pos), hstep]
  rw [hstep]
  exact supply_ne_refuse _ opened

theorem readFrom_opening (s : List Char) (pos : Nat) :
    readFrom opened ⟨none, .text ('(' :: s) pos⟩ =
      readFrom (⟨pos, []⟩ :: opened) ⟨none, .text s (pos + 1)⟩ := by
  have hscan : scan ('(' :: s) pos = .token ⟨.opening, "(", pos⟩ s (pos + 1) := by
    rw [scan, show isBlank '(' = false by decide]
    rfl
  rw [readFrom_token hscan fun e => by simp [step]]
  rfl

theorem readFrom_closing (l : OpenList) (s : List Char) (pos : Nat) :
    readFrom (l :: opened) ⟨none, .text (')' :: s) pos⟩ =
      resume (supply (.list l.items.reverse) opened) ⟨none, .text s (pos + 1)⟩ := by
  have hscan : scan (')' :: s) pos = .token ⟨.closing, ")", pos⟩ s (pos + 1) := by
    rw [scan, show isBlank ')' = false by decide]
    rfl
  have hstep : step ⟨.closing, ")", pos⟩ (l :: opened) =
      supply (.list l.items.reverse) opened := rfl
  rw [readFrom_token hscan fun e => hstep ▸ supply_ne_refuse _ opened e, hstep]

end Stream

/-- The texts of the expressions, each after a space. -/
def itemsText (es : List Expr) : List Char := es.flatMap fun e => ' ' :: e.text.toList

theorem toList_intercalate_texts (e : Expr) (es : List Expr) :
    (" ".intercalate (e.text :: Expr.texts es)).toList = e.text.toList ++ itemsText es := by
  induction es generalizing e with
  | nil => simp [Expr.texts, itemsText]
  | cons e' es ih =>
    rw [Expr.texts, String.intercalate_cons_cons, String.toList_append, ih]
    simp [itemsText]

/-- The text of a list that is not empty. -/
theorem Expr.toList_text_list (e : Expr) (es : List Expr) :
    (Expr.list (e :: es)).text.toList = '(' :: (e.text.toList ++ (itemsText es ++ [')'])) := by
  rw [Expr.text, Expr.texts, listText, String.toList_append, String.toList_append,
    toList_intercalate_texts]
  simp

theorem endsWord_itemsText (es : List Expr) (rest : List Char) :
    EndsWord (itemsText es ++ ')' :: rest) := by
  cases es with
  | nil =>
    rintro c ⟨⟩
    decide
  | cons e es =>
    rintro c ⟨⟩
    decide

namespace Stream

-- The lists that are open stay open underneath. So the two go by induction on the expression and on
-- the rest of a list, for all open lists and for all that may follow.
mutual

/-- The text of an expression is read as the expression, and no further. -/
theorem readFrom_text : ∀ {e : Expr}, e.Readable → ∀ (opened : List OpenList) {rest : List Char},
    EndsWord rest → ∀ pos, ∃ pos', readFrom opened ⟨none, .text (e.text.toList ++ rest) pos⟩ =
      resume (supply e opened) ⟨none, .text rest pos'⟩
  | .atom (.number n), h, opened, rest, hrest, pos =>
    readFrom_word opened (Atom.Readable.spells (a := .number n) h (by simp)) hrest pos
  | .atom (.symbol s), h, opened, rest, hrest, pos =>
    readFrom_word opened (Atom.Readable.spells (a := .symbol s) h (by simp)) hrest pos
  | .atom (.str s), h, opened, rest, _, pos => readFrom_string opened h rest pos
  | .list [], _, opened, rest, _, pos => by
    refine ⟨pos + 1 + 1, ?_⟩
    show readFrom opened ⟨none, .text ('(' :: ')' :: rest) pos⟩ = _
    rw [readFrom_opening, readFrom_closing]
    rfl
  | .list (e :: es), ⟨he, hes⟩, opened, rest, _, pos => by
    have hends := endsWord_itemsText es rest
    obtain ⟨pos₁, h₁⟩ := readFrom_text he (⟨pos, []⟩ :: opened) hends (pos + 1)
    obtain ⟨pos₂, h₂⟩ := readFrom_items hes opened ⟨pos, [e]⟩ rest pos₁
    refine ⟨pos₂, ?_⟩
    rw [Expr.toList_text_list, List.cons_append, List.append_assoc, List.append_assoc,
      readFrom_opening]
    exact h₁.trans h₂

/-- The rest of a list is read as its items. -/
theorem readFrom_items : ∀ {es : List Expr}, Expr.ReadableAll es → ∀ (opened : List OpenList)
    (l : OpenList) (rest : List Char) (pos : Nat), ∃ pos',
      readFrom (l :: opened) ⟨none, .text (itemsText es ++ ')' :: rest) pos⟩ =
        resume (supply (.list (l.items.reverse ++ es)) opened) ⟨none, .text rest pos'⟩
  | [], _, opened, l, rest, pos => by
    refine ⟨pos + 1, ?_⟩
    rw [List.append_nil]
    exact readFrom_closing opened l rest pos
  | e :: es, ⟨he, hes⟩, opened, l, rest, pos => by
    obtain ⟨pos₁, h₁⟩ := readFrom_text he (l :: opened) (endsWord_itemsText es rest) (pos + 1)
    obtain ⟨pos₂, h₂⟩ := readFrom_items hes opened ⟨l.pos, e :: l.items⟩ rest pos₁
    refine ⟨pos₂, ?_⟩
    have htext : itemsText (e :: es) ++ ')' :: rest =
        ' ' :: (e.text.toList ++ (itemsText es ++ ')' :: rest)) := by
      simp [itemsText]
    rw [htext, readFrom_blank (by decide)]
    rw [List.reverse_cons, List.append_assoc] at h₂
    exact h₁.trans h₂

end

/-- Blanks are skipped. -/
theorem readFrom_blanks {g : List Char} (hg : ∀ c ∈ g, isBlank c = true) (s : List Char) (pos : Nat)
    (opened : List OpenList) : ∃ pos', readFrom opened ⟨none, .text (g ++ s) pos⟩ =
      readFrom opened ⟨none, .text s pos'⟩ := by
  induction g generalizing pos with
  | nil => exact ⟨pos, rfl⟩
  | cons c g ih =>
    obtain ⟨pos', h⟩ := ih (fun c' hc' => hg c' (List.mem_cons_of_mem _ hc')) (pos + 1)
    refine ⟨pos', ?_⟩
    rw [List.cons_append, readFrom_blank (hg c List.mem_cons_self), h]

theorem readExpr_text {e : Expr} (h : e.Readable) {rest : List Char} (hrest : EndsWord rest)
    (pos : Nat) : ∃ pos', readExpr ⟨none, .text (e.text.toList ++ rest) pos⟩ =
      (.ok (some e), ⟨none, .text rest pos'⟩) :=
  readFrom_text h [] hrest pos

/-- All that is read goes by the next expression. -/
theorem readAll_eq (s : Stream) : s.readAll =
    match s.readExpr with
    | (.error e, s') => ([], some e, s')
    | (.ok none, s') => ([], none, s')
    | (.ok (some e), s') => (e :: s'.readAll.1, s'.readAll.2) := by
  rw [readAll]
  split
  · next h => rw [h]
  · next h => rw [h]
  · next h => rw [h]

theorem readAll_end (pos : Nat) :
    readAll ⟨none, .text [] pos⟩ = ([], none, ⟨none, .exhausted⟩) := by
  have h : readExpr ⟨none, .text [] pos⟩ = (.ok none, ⟨none, .exhausted⟩) := by
    rw [readExpr, readFrom_eq]
    rfl
  rw [readAll_eq, h]

theorem readAll_text {e : Expr} (h : e.Readable) {rest : List Char} (hrest : EndsWord rest)
    (pos : Nat) : ∃ pos', readAll ⟨none, .text (e.text.toList ++ rest) pos⟩ =
      (e :: (readAll ⟨none, .text rest pos'⟩).1, (readAll ⟨none, .text rest pos'⟩).2) := by
  obtain ⟨pos', he⟩ := readExpr_text h hrest pos
  refine ⟨pos', ?_⟩
  rw [readAll_eq, he]

theorem readAll_blanks {g : List Char} (hg : ∀ c ∈ g, isBlank c = true) (s : List Char)
    (pos : Nat) :
    ∃ pos', readAll ⟨none, .text (g ++ s) pos⟩ = readAll ⟨none, .text s pos'⟩ := by
  obtain ⟨pos', h⟩ := readFrom_blanks hg s pos []
  refine ⟨pos', ?_⟩
  rw [readAll_eq, readExpr, h, ← readExpr, ← readAll_eq]

end Stream

/-! ## Texts of several expressions -/

/-- A text of blanks, at least one. -/
def IsGap (g : String) : Prop := g ≠ "" ∧ ∀ c ∈ g.toList, isBlank c = true

theorem IsGap.endsWord {g : String} (h : IsGap g) (s : List Char) : EndsWord (g.toList ++ s) := by
  obtain ⟨c, cs, hg⟩ := List.exists_cons_of_ne_nil (fun hg => h.1 (String.toList_eq_nil_iff.mp hg))
  have hc : isBlank c = true := h.2 c (hg ▸ List.mem_cons_self)
  rw [hg]
  rintro _ ⟨⟩
  rw [isWordChar, hc]
  rfl

/-- The texts of the expressions, with `gap i` after that of number `i` unless it is the last. -/
def spaced : (Nat → String) → List Expr → String
  | _, [] => ""
  | _, [e] => e.text
  | gap, e :: es => e.text ++ gap 0 ++ spaced (fun i => gap (i + 1)) es

theorem readAll_spaced {es : List Expr} (hes : ∀ e ∈ es, e.Readable) {gap : Nat → String}
    (hgap : ∀ i, IsGap (gap i)) (pos : Nat) :
    (Stream.readAll ⟨none, .text (spaced gap es).toList pos⟩).1 = es ∧
      (Stream.readAll ⟨none, .text (spaced gap es).toList pos⟩).2.1 = none := by
  induction es generalizing gap pos with
  | nil =>
    have hend := Stream.readAll_end pos
    rw [spaced, String.toList_empty, hend]
    exact ⟨rfl, rfl⟩
  | cons e es ih =>
    have he := hes e List.mem_cons_self
    have hes' : ∀ e' ∈ es, e'.Readable := fun e' h => hes e' (List.mem_cons_of_mem _ h)
    cases es with
    | nil =>
      obtain ⟨pos', h⟩ := Stream.readAll_text he (show EndsWord [] from nofun) pos
      rw [List.append_nil, Stream.readAll_end] at h
      rw [spaced, h]
      exact ⟨rfl, rfl⟩
    | cons e' es =>
      have hgap' : ∀ i, IsGap (gap (i + 1)) := fun i => hgap (i + 1)
      have htext : (spaced gap (e :: e' :: es)).toList = e.text.toList ++ ((gap 0).toList ++
          (spaced (fun i => gap (i + 1)) (e' :: es)).toList) := by
        simp [spaced]
      obtain ⟨pos₁, h₁⟩ := Stream.readAll_text he ((hgap 0).endsWord _) pos
      obtain ⟨pos₂, h₂⟩ := Stream.readAll_blanks (hgap 0).2
        (spaced (fun i => gap (i + 1)) (e' :: es)).toList pos₁
      obtain ⟨hitems, hfailure⟩ := ih hes' hgap' pos₂
      rw [htext, h₁, h₂]
      exact ⟨congrArg _ hitems, hfailure⟩

/-- **What is written is read back.** The texts of readable expressions with blanks between them
are read as these expressions, in order and without failure. Each of them can be written, and its
text is read as that expression alone. -/
theorem parseAll_spaced {es : List Expr} (hes : ∀ e ∈ es, e.Readable) {gap : Nat → String}
    (hgap : ∀ i, IsGap (gap i)) :
    parseAll (spaced gap es) = (es, none) ∧
      ∀ e ∈ es, e.text? = some e.text ∧ parse e.text = .ok e := by
  constructor
  · obtain ⟨hitems, hfailure⟩ := readAll_spaced hes hgap 0
    exact Prod.ext hitems hfailure
  · intro e he
    refine ⟨Expr.text?_of_isWritable (hes e he).isWritable, ?_⟩
    obtain ⟨pos', h⟩ := Stream.readExpr_text (hes e he) (show EndsWord [] from nofun) 0
    rw [List.append_nil] at h
    have hread : (Stream.ofText e.text).readExpr.1 = .ok (some e) := congrArg Prod.fst h
    rw [parse, hread]

/-- `(+ -12 "a b" () (0.5))` -/
def Expr.mixed : Expr :=
  .list [.symbol "+", .atom (.number (.int (-12))), .atom (.str "a b"), .list [],
    .list [.atom (.number (.double (.finite false ⟨1022 * 2 ^ 52, by decide⟩)))]]

/-- A list of all kinds of parts, and a symbol after a line break. -/
theorem parseAll_mixed :
    (Expr.mixed.Readable ∧ (Expr.symbol "x").Readable ∧ IsGap "\n ") ∧
      parseAll (spaced (fun _ => "\n ") [.mixed, .symbol "x"]) = ([.mixed, .symbol "x"], none) ∧
      ∀ e ∈ [Expr.mixed, Expr.symbol "x"], e.text? = some e.text ∧ parse e.text = .ok e := by
  have hmixed : Expr.mixed.Readable := by
    have hplus : "+".toList.all isWordChar = true := rfl
    refine ⟨⟨by decide, List.all_eq_true.mp hplus, rfl⟩, ?_, ?_, trivial, ⟨rfl, trivial⟩,
      trivial⟩
    · show digitCount 12 ≤ maxIntegerDigits
      decide
    · show '"' ∉ "a b".toList
      decide
  have hx : (Expr.symbol "x").Readable := by
    have hchars : "x".toList.all isWordChar = true := rfl
    exact ⟨by decide, List.all_eq_true.mp hchars, rfl⟩
  have hgap : IsGap "\n " := by
    have hblank : "\n ".toList.all isBlank = true := rfl
    exact ⟨by decide, List.all_eq_true.mp hblank⟩
  refine ⟨⟨hmixed, hx, hgap⟩, parseAll_spaced ?_ fun _ => hgap⟩
  simpa using ⟨hmixed, hx⟩

end MiniLisp
