import MiniLisp.Proofs.Lossless

/-!
# Where a text can be cut

A text can be cut outside its strings and words: the tokens of the two parts, one after the other,
are those of the text, but for the offsets of those of the second part. These are the cuts with the
quotes before them paired and no word going through them. So blanks can be put in at such a place,
and nothing changes but the offsets of what comes after them.

## Main definitions

* `Outside s k`: the offset `k` lies outside the strings and words of the text `s`
* `displaced k n p`: where the offset `p` comes to lie when `n` characters are put in at `k`

## Main results

* `Lexing.split`: the tokens of a text on either side of a cut
* `outside_iff`: which cuts are outside strings and words
* `drain_insert`: blanks that are put in move the tokens after them
* `drain_append_of_outside`: cutting a text, and putting in blanks there
-/

namespace MiniLisp

/-- The offset `k` lies outside the strings and words of the text: it is within no token, and not
after a quote that has no partner. -/
def Outside (s : String) (k : Nat) : Prop :=
  (∀ t ∈ (Source.ofText s).drain.1, ¬ (t.pos < k ∧ (k : Int) < t.pos + t.raw.length)) ∧
    ∀ p, (Source.ofText s).drain.2 = some (.unterminatedString p) → k ≤ p

/-- Where the offset `p` comes to lie when `n` characters are put in at the offset `k`. -/
def displaced (k n : Nat) (p : Int) : Int := if p < k then p else p + n

theorem displaced_of_lt {k : Nat} {p : Int} (h : p < k) (n : Nat) : displaced k n p = p := if_pos h

theorem displaced_of_le {k : Nat} {p : Int} (h : k ≤ p) (n : Nat) : displaced k n p = p + n :=
  if_neg (not_lt.mpr h)

/-! ## Tokens that are moved -/

theorem Token.move_displaced_of_lt {k : Nat} (t : Token) (h : t.pos < k) (n : Nat) :
    t.move (displaced k n) = t := by
  rw [move, displaced_of_lt h]

theorem Token.move_displaced_shift (t : Token) (h : 0 ≤ t.pos) (k n : Nat) :
    (t.shift k).move (displaced k n) = t.shift (k + n) := by
  simp only [move, shift, displaced_of_le (show (k : Int) ≤ t.pos + k by omega), Nat.cast_add,
    add_assoc]

theorem ReadError.move_displaced_shift (p k n : Nat) :
    ((unterminatedString p).shift k).move (displaced k n) =
      (unterminatedString p).shift (k + n) := by
  simp only [move, shift, displaced_of_le (show (k : Int) ≤ (p + k : Nat) by omega)]
  congr 1
  omega

/-! ## Blanks do not belong to words -/

theorem IsBlanks.isWordChar_eq_false {s : List Char} (h : IsBlanks s) {c : Char} (hc : c ∈ s) :
    isWordChar c = false := by
  rw [isWordChar, h c hc]
  rfl

theorem IsBlanks.not_glued_left {s : List Char} (h : IsBlanks s) (b : List Char) :
    ¬ Glued s b := by
  rintro ⟨⟨c, hc, hword⟩, -⟩
  rw [h.isWordChar_eq_false (List.mem_of_getLast? hc)] at hword
  cases hword

theorem IsBlanks.not_glued_right {s : List Char} (h : IsBlanks s) (a : List Char) :
    ¬ Glued a s := by
  rintro ⟨-, c, hc, hword⟩
  rw [h.isWordChar_eq_false (List.mem_of_head? hc)] at hword
  cases hword

theorem EndsWord.of_append {a b : List Char} (h : EndsWord (a ++ b)) : EndsWord a := by
  cases a with
  | nil => exact nofun
  | cons c a => exact h

/-! ## Tokens on either side of a cut -/

/-- A beginning of a text that is no longer than another one is one of that. -/
theorem exists_append_of_length_le {a b c d : List Char} (h : a ++ b = c ++ d)
    (hle : c.length ≤ a.length) : ∃ e, a = c ++ e ∧ d = e ++ b := by
  obtain ⟨e, rfl⟩ := List.prefix_of_prefix_length_le ⟨d, h.symm⟩ (List.prefix_append a b) hle
  rw [List.append_assoc, List.append_cancel_left_eq] at h
  exact ⟨e, rfl, h.symm⟩

namespace Lexing

variable {pos : Nat} {s : List Char} {ts : List Token} {failure : Option ReadError}

/-- The tokens of a text end before its end. -/
theorem end_le (h : Lexing pos s ts failure) :
    ∀ t ∈ ts, t.pos + t.raw.length ≤ (pos + s.length : Nat) := by
  induction h with
  | finished | unterminated => exact nofun
  | token _ _ _ _ _ ih =>
    simp only [List.length_append]
    refine List.forall_mem_cons.mpr ⟨by omega, fun t ht => ?_⟩
    have hend := ih t ht
    omega

/-- A cut that goes through no token, and is not after a quote without a partner, has the tokens
of the text on either side of it, and goes through no word. -/
theorem split {a b : List Char} (h : Lexing pos (a ++ b) ts failure)
    (hout : ∀ t ∈ ts, ¬ (t.pos < (pos + a.length : Nat) ∧
      ((pos + a.length : Nat) : Int) < t.pos + t.raw.length))
    (hfailure : ∀ p, failure = some (.unterminatedString p) → pos + a.length ≤ p) :
    ¬ Glued a b ∧ ∃ us vs, ts = us ++ vs ∧ Lexing pos a us none ∧
      Lexing (pos + a.length) b vs failure := by
  generalize hs : a ++ b = s at h
  induction h generalizing a with
  | finished hgap =>
    subst hs
    obtain ⟨ha, hb⟩ := List.forall_mem_append.mp hgap
    exact ⟨IsBlanks.not_glued_left ha b, [], [], rfl, .finished ha, .finished hb⟩
  | @unterminated pos gap body hgap hbody =>
    have hle := hfailure _ rfl
    obtain ⟨gap', rfl, rfl⟩ := exists_append_of_length_le hs.symm (by omega)
    obtain ⟨ha, hgap'⟩ := List.forall_mem_append.mp hgap
    refine ⟨IsBlanks.not_glued_left ha _, [], [], rfl, .finished ha, ?_⟩
    rw [List.length_append, ← Nat.add_assoc]
    exact .unterminated hgap' hbody
  | @token pos gap rest t ts failure hgap ht hpos hends hrest ih =>
    -- a cut that is not in the gap before the token is after it, as it cannot go through it
    rcases Nat.lt_or_ge gap.length a.length with hlt | hle
    · have hcut := hout t List.mem_cons_self
      have hend : (gap ++ t.raw).length ≤ a.length := by
        rw [List.length_append]
        omega
      obtain ⟨c, rfl, rfl⟩ := exists_append_of_length_le (by rw [hs, List.append_assoc]) hend
      rw [List.append_assoc] at hout hfailure ⊢
      have hlength : pos + (gap ++ (t.raw ++ c)).length =
          pos + gap.length + t.raw.length + c.length := by
        simp only [List.length_append, Nat.add_assoc]
      rw [hlength] at hout hfailure ⊢
      obtain ⟨hglued, us, vs, rfl, hus, hvs⟩ :=
        ih (fun t' ht' => hout t' (List.mem_cons_of_mem t ht')) hfailure rfl
      refine ⟨?_, t :: us, vs, rfl,
        .token hgap ht hpos (fun hkind => (hends hkind).of_append) hus, hvs⟩
      rw [← List.append_assoc]
      by_cases hc : c = []
      · rw [hc, List.append_nil, glued_append_iff ht.raw_ne_nil, ht.glued_iff]
        rintro ⟨hkind, hnot⟩
        subst hc
        exact hnot (hends hkind)
      · rwa [glued_append_iff hc]
    · obtain ⟨gap', rfl, rfl⟩ := exists_append_of_length_le hs.symm hle
      obtain ⟨ha, hgap'⟩ := List.forall_mem_append.mp hgap
      refine ⟨IsBlanks.not_glued_left ha _, [], t :: ts, rfl, .finished ha, ?_⟩
      rw [List.length_append, ← Nat.add_assoc] at hpos hrest
      exact .token hgap' ht hpos hends hrest

end Lexing

/-- **The cuts outside strings and words**: the quotes before them are paired, and they go through
no word. -/
theorem outside_iff (a b : String) :
    Outside (a ++ b) a.length ↔ Paired a.toList ∧ ¬ Glued a.toList b.toList := by
  constructor
  · rintro ⟨hout, hfailure⟩
    have hall := lexing_drain (a ++ b).toList 0
    rw [Source.ofText, String.toList_append, ← String.length_toList] at hout hfailure
    rw [String.toList_append] at hall
    obtain ⟨hglued, us, vs, -, hus, -⟩ := hall.split (by simpa using hout) (by simpa using hfailure)
    refine ⟨(drain_failure_iff a).1.mp ?_, hglued⟩
    exact congrArg Prod.snd hus.drain_eq
  · rintro ⟨hpaired, hglued⟩
    have hnone := (drain_failure_iff a).1.mpr hpaired
    have hdrain := drain_append (Prod.ext rfl hnone) rfl hglued
    rw [Outside, hdrain]
    have ha := lexing_drain a.toList 0
    have hb := (lexing_drain b.toList 0).shift a.length
    refine ⟨fun t ht hcut => ?_, fun p hp => ?_⟩
    · rcases List.mem_append.mp ht with ht | ht
      · have hend := ha.end_le t ht
        rw [Nat.zero_add, String.length_toList] at hend
        omega
      · have hbegin := hb.pairwise_places.1 t.pos (List.mem_append_left _ (List.mem_map_of_mem ht))
        omega
    · have hmem : (p : Int) ∈ places ((Source.ofText b).drain.1.map (Token.shift a.length))
          ((Source.ofText b).drain.2.map (ReadError.shift a.length)) := by
        refine List.mem_append_right _ ?_
        rw [show Option.map _ _ = some _ from hp]
        exact List.mem_singleton_self _
      have hbegin := hb.pairwise_places.1 p hmem
      omega

/-! ## Blanks at a cut -/

theorem drain_blanks {w : String} (hw : IsBlanks w.toList) :
    (Source.ofText w).drain = ([], none) :=
  (Lexing.finished hw).drain_eq

/-- Blanks that are put in outside strings and words move the tokens after them. -/
theorem drain_insert {a b w : String} (h : Outside (a ++ b) a.length) (hw : IsBlanks w.toList) :
    (Source.ofText (a ++ w ++ b)).drain =
      ((Source.ofText (a ++ b)).drain.1.map (Token.move (displaced a.length w.length)),
        (Source.ofText (a ++ b)).drain.2.map (ReadError.move (displaced a.length w.length))) := by
  obtain ⟨hpaired, hglued⟩ := (outside_iff a b).mp h
  have hnone := (drain_failure_iff a).1.mpr hpaired
  have hdrain : (Source.ofText a).drain = ((Source.ofText a).drain.1, none) := Prod.ext rfl hnone
  have haw := drain_append hdrain (drain_blanks hw) (hw.not_glued_right a.toList)
  rw [List.map_nil, List.append_nil] at haw
  have hglued' : ¬ Glued (a ++ w).toList b.toList := by
    rw [String.toList_append]
    by_cases hnil : w.toList = []
    · rwa [hnil, List.append_nil]
    · rw [glued_append_iff hnil]
      exact hw.not_glued_left b.toList
  rw [drain_append haw rfl hglued', drain_append hdrain rfl hglued]
  have ha : ∀ t ∈ (Source.ofText a).drain.1, t.move (displaced a.length w.length) = t := by
    intro t ht
    have hlexing := lexing_drain a.toList 0
    have hend := hlexing.end_le t ht
    have hraw := (hlexing.isLexeme t ht).length_raw_pos
    rw [Nat.zero_add, String.length_toList] at hend
    exact t.move_displaced_of_lt (by omega) _
  have hb : ∀ t ∈ (Source.ofText b).drain.1,
      (t.shift a.length).move (displaced a.length w.length) = t.shift (a ++ w).length := by
    intro t ht
    have hbegin := (lexing_drain b.toList 0).pairwise_places.1 t.pos
      (List.mem_append_left _ (List.mem_map_of_mem ht))
    rw [String.length_append]
    exact t.move_displaced_shift (by simpa using hbegin) _ _
  refine Prod.ext ?_ ?_
  · simp only [List.map_append, List.map_map]
    rw [List.map_congr_left ha, List.map_id', List.map_congr_left fun t ht => (hb t ht).symm]
    rfl
  cases hfailure : (Source.ofText b).drain.2 with
  | none => rfl
  | some e =>
    obtain ⟨p, rfl⟩ := (lexing_drain b.toList 0).failure_eq e hfailure
    rw [String.length_append]
    exact congrArg some (ReadError.move_displaced_shift p _ _).symm

theorem firstOf_move {φ : Int → Int} {s s' : String} (h : φ s.length = s'.length)
    (r : List Expr × Option ReadError) :
    firstOf s' (r.1, r.2.map (ReadError.move φ)) = (firstOf s r).mapError (ReadError.move φ) := by
  rcases r with ⟨_ | ⟨e, es⟩, _ | f⟩
  · simp only [firstOf, Except.mapError, ReadError.move, h, Option.map_none, Int.toNat_natCast]
  · rfl
  · rfl
  · rfl

/-- **A text can be cut outside its strings and words**, which is where the quotes before the cut
are paired and no word goes through it. The tokens of the two parts, one after the other, are those
of the text, with those of the second part and the failure after them moved by the length of the
first. So blanks that are put in there only move what comes after them: the tokens are the same but
for their offsets, and so are the expressions read. -/
theorem drain_append_of_outside (a b : String) :
    (Outside (a ++ b) a.length ↔ Paired a.toList ∧ ¬ Glued a.toList b.toList) ∧
    (Outside (a ++ b) a.length →
      (Source.ofText (a ++ b)).drain =
        ((Source.ofText a).drain.1 ++ (Source.ofText b).drain.1.map (Token.shift a.length),
          (Source.ofText b).drain.2.map (ReadError.shift a.length)) ∧
      ∀ w : String, IsBlanks w.toList →
        (Source.ofText (a ++ w ++ b)).drain =
          ((Source.ofText (a ++ b)).drain.1.map (Token.move (displaced a.length w.length)),
            (Source.ofText (a ++ b)).drain.2.map
              (ReadError.move (displaced a.length w.length))) ∧
        parseAll (a ++ w ++ b) = ((parseAll (a ++ b)).1,
          (parseAll (a ++ b)).2.map (ReadError.move (displaced a.length w.length))) ∧
        parse (a ++ w ++ b) =
          (parse (a ++ b)).mapError (ReadError.move (displaced a.length w.length))) := by
  refine ⟨outside_iff a b, fun h => ⟨?_, fun w hw => ?_⟩⟩
  · obtain ⟨hpaired, hglued⟩ := (outside_iff a b).mp h
    exact drain_append (Prod.ext rfl ((drain_failure_iff a).1.mpr hpaired)) rfl hglued
  have hdrain := drain_insert h hw
  have hall : parseAll (a ++ w ++ b) = ((parseAll (a ++ b)).1,
      (parseAll (a ++ b)).2.map (ReadError.move (displaced a.length w.length))) := by
    rw [parseAll_eq_readTokens, parseAll_eq_readTokens, hdrain]
    exact readTokens_move _ _ [] _
  refine ⟨hdrain, hall, ?_⟩
  rw [parse_eq_firstOf, parse_eq_firstOf, hall]
  refine firstOf_move ?_ _
  rw [displaced_of_le (by simp)]
  simp only [String.length_append]
  omega

/-- Blanks between a string and a word that touch. The quote at the end, which has no partner, is
moved like the tokens. -/
theorem drain_append_touching :
    Outside ("(f \"a b\"" ++ "x) \"") 8 ∧
      (Source.ofText ("(f \"a b\"" ++ "\n " ++ "x) \"")).drain =
        ([⟨.opening, "(", 0⟩, ⟨.word, "f", 1⟩, ⟨.str, "a b", 3⟩, ⟨.word, "x", 10⟩,
          ⟨.closing, ")", 11⟩], some (.unterminatedString 13)) := by
  obtain ⟨hiff, hcut⟩ := drain_append_of_outside "(f \"a b\"" "x) \""
  have hout := hiff.mpr (by decide)
  have htouching : (Source.ofText ("(f \"a b\"" ++ "x) \"")).drain =
      ([⟨.opening, "(", 0⟩, ⟨.word, "f", 1⟩, ⟨.str, "a b", 3⟩, ⟨.word, "x", 8⟩,
        ⟨.closing, ")", 9⟩], some (.unterminatedString 11)) :=
    Source.drain_token rfl <| Source.drain_token rfl <| Source.drain_token rfl <|
      Source.drain_token rfl <| Source.drain_token rfl <| Source.drain_unterminated rfl
  have hblanks : IsBlanks "\n ".toList := .cons (by decide) (.cons (by decide) isBlanks_nil)
  have hdrain := ((hcut hout).2 "\n " hblanks).1
  rw [htouching] at hdrain
  exact ⟨hout, hdrain⟩

end MiniLisp
