import FixpointLisp.Proofs.Expr.Spans
import FixpointLisp.Proofs.Token.Patterns

/-!
# Where the tokens of a text stand

The tokens of a text stand in it one behind the other, with blanks in front of them, between them
and behind them. Where a token starts, the lexer does not look back, and where it ends, the lexer
does not need what follows. So any run of tokens can be cut out of a text and read by itself.

* `withoutEscapes`: a text less the backslashes that escape something.
* `Spells` says what a token can be read from; `spells_cutLexeme`: the first lexeme of a text is of
  this form.
* `Layout`: the tokens account for all of a text.
* `layout_tokenize`: every text is read to its end by longest matches, and its tokens account for
  all of it.
* `tokensFrom_append`: a text is cut into tokens where `lexemes_append` cuts it into lexemes.
  `forall₂_lexemes`: each token covers its lexeme.
* `exists_cut_tokensFrom`: the piece of a text in which some of its tokens stand has these tokens.
* `tokensFrom_append_of_atom`: going on with the atom at the end of a text leaves the tokens in front
  of it as they are. `exists_tail_of_last_atom`: behind the last token there are only blanks.
-/

namespace FixpointLisp

open Text

/-! ### Escapes -/

/-- The elements of a list that are kept, where this depends on the elements in front of each. -/
def keepBehind {α : Type} (keep : List α → α → Bool) : List α → List α
  | [] => []
  | a :: as =>
    if keep [] a then a :: keepBehind (fun front => keep (a :: front)) as
    else keepBehind (fun front => keep (a :: front)) as

/-- Whether a text escapes the character behind it: it ends in an odd number of backslashes. -/
def escapesNext (cs : List Char) : Bool := (cs.reverse.takeWhile (· == '\\')).length % 2 == 1

/-- A text without the backslashes that no backslash escapes. -/
def withoutEscapes (cs : List Char) : List Char :=
  keepBehind (fun front c => c != '\\' || escapesNext front) cs

@[simp] theorem escapesNext_nil : escapesNext [] = false := rfl

theorem escapesNext_cons {c : Char} (hc : c ≠ '\\') (cs : List Char) :
    escapesNext (c :: cs) = escapesNext cs := by
  unfold escapesNext
  rw [List.reverse_cons, List.takeWhile_append]
  split_ifs with hlength
  · simp [hc, hlength]
  · rfl

/-- An escaped character escapes nothing itself. -/
theorem escapesNext_escape (c : Char) (cs : List Char) :
    escapesNext ('\\' :: c :: cs) = escapesNext cs := by
  unfold escapesNext
  rw [List.reverse_cons, List.reverse_cons, List.append_assoc, List.takeWhile_append]
  split_ifs with hlength
  · by_cases hc : c = '\\'
    · simp [hc, hlength]
    · simp [hc, hlength]
  · rfl

theorem unescape_eq_withoutEscapes (cs : List Char) : unescape cs = withoutEscapes cs := by
  unfold withoutEscapes
  fun_induction unescape cs with
  | case1 => rfl
  | case2 => rfl
  | case3 c cs ih =>
    have hnext : escapesNext ['\\'] := by decide
    simp [keepBehind, hnext, escapesNext_escape, ih]
  | case4 c cs hlast hescape ih =>
    have hc : c ≠ '\\' := by
      rintro rfl
      cases cs with
      | nil => exact hlast rfl rfl
      | cons d cs => exact hescape d cs rfl rfl
    simp [keepBehind, escapesNext_cons hc, hc, ih]

/-- Whether a backslash escapes every quote in a text. -/
def QuotesEscaped (cs : List Char) : Prop :=
  ∀ front back, cs = front ++ '"' :: back → escapesNext front

theorem quotesEscaped_cons {c : Char} {cs : List Char} (hquote : c ≠ '"') (hescape : c ≠ '\\')
    (h : QuotesEscaped cs) : QuotesEscaped (c :: cs) := by
  rintro (_ | ⟨d, front⟩) back heq
  · exact absurd (List.cons.inj heq).1 hquote
  · cases heq
    rw [escapesNext_cons hescape]
    exact h front back rfl

theorem quotesEscaped_escape (c : Char) {cs : List Char} (h : QuotesEscaped cs) :
    QuotesEscaped ('\\' :: c :: cs) := by
  rintro (_ | ⟨d, _ | ⟨e, front⟩⟩) back heq
  · cases heq
  · cases heq
    rfl
  · cases heq
    rw [escapesNext_escape]
    exact h front back rfl

theorem quotesEscaped_of_open {cs : List Char} (h : hasClosingQuote cs = false) :
    QuotesEscaped cs := by
  fun_induction hasClosingQuote cs with
  | case1 => simp [QuotesEscaped]
  | case2 cs => cases h
  | case3 c cs ih => exact quotesEscaped_escape c (ih h)
  | case4 c cs hquote hescape ih =>
    by_cases hne : c = '\\'
    · subst hne
      cases cs with
      | nil =>
        rintro (_ | ⟨d, front⟩) back heq
        · cases heq
        · cases front <;> cases heq
      | cons d cs => exact absurd rfl (hescape d cs rfl)
    · exact quotesEscaped_cons hquote hne (ih h)

/-- A quoted text that is closed ends at the first quote that no backslash escapes. -/
theorem exists_cutQuoted_of_closed {cs : List Char} (h : hasClosingQuote cs) :
    ∃ body, (cutQuoted cs).1 = body ++ ['"'] ∧ QuotesEscaped body ∧ escapesNext body = false := by
  fun_induction hasClosingQuote cs with
  | case1 => cases h
  | case2 cs => exact ⟨[], rfl, by simp [QuotesEscaped], rfl⟩
  | case3 c cs ih =>
    obtain ⟨body, hcut, hbody, hnext⟩ := ih h
    refine ⟨'\\' :: c :: body, by simp [cutQuoted, hcut], quotesEscaped_escape c hbody, ?_⟩
    rw [escapesNext_escape, hnext]
  | case4 c cs hquote hescape ih =>
    have hne := ne_escape_of_closed h hescape
    obtain ⟨body, hcut, hbody, hnext⟩ := ih h
    refine ⟨c :: body, by simp [cutQuoted_cons hquote hne, hcut],
      quotesEscaped_cons hquote hne hbody, ?_⟩
    rw [escapesNext_cons hne, hnext]

/-- A quoted text is not closed if all quotes in it are escaped. -/
theorem quotesEscaped_iff {cs : List Char} : QuotesEscaped cs ↔ hasClosingQuote cs = false := by
  refine ⟨fun h => ?_, quotesEscaped_of_open⟩
  by_contra hne
  obtain ⟨body, hcut, -, hnext⟩ := exists_cutQuoted_of_closed (Bool.of_not_eq_false hne)
  have htext : cs = body ++ '"' :: (cutQuoted cs).2 := by
    conv_lhs => rw [← cutQuoted_append cs, hcut, List.append_assoc, List.singleton_append]
  rw [h body _ htext] at hnext
  cases hnext

/-! ### What tokens are read from -/

/-- Whether a token of the given kind can be read from a piece of a text that has `back` behind
it. -/
inductive Spells : TokenKind → List Char → List Char → Prop
  | openParen (back : List Char) : Spells .openParen ['('] back
  | closeParen (back : List Char) : Spells .closeParen [')'] back
  /-- An atom goes on up to a blank, a closing bracket or the end of the text. -/
  | atom {c : Char} {cs back : List Char} (hblank : ¬isBlank c) (hopen : c ≠ '(') (hclose : c ≠ ')')
      (hquote : c ≠ '"') (hcs : ∀ d ∈ cs, ¬isBlank d ∧ d ≠ ')')
      (hback : ∀ d ∈ back.head?, isBlank d ∨ d = ')') :
      Spells (.atom (String.ofList (c :: cs))) (c :: cs) back
  /-- A quoted text ends at the first quote that is not escaped. -/
  | closed {body back : List Char} (hbody : QuotesEscaped body) (hnext : escapesNext body = false) :
      Spells (.quoted (String.ofList (withoutEscapes ('"' :: (body ++ ['"'])))))
        ('"' :: (body ++ ['"'])) back
  /-- A quoted text without such a quote goes on to the end of the text. -/
  | unclosed {body : List Char} (hbody : QuotesEscaped body) :
      Spells (.quoted (String.ofList (withoutEscapes ('"' :: body)))) ('"' :: body) []

/-- The first lexeme of a text spells the token that is read from it. -/
theorem spells_cutLexeme {c : Char} (hc : ¬isBlank c) (cs : List Char) :
    Spells (.ofLexeme (cutLexeme c cs).1) (cutLexeme c cs).1 (cutLexeme c cs).2 := by
  rcases cutLexeme_cases c cs with
    ⟨rfl, hcut⟩ | ⟨rfl, hcut⟩ | ⟨rfl, hcut⟩ | ⟨hopen, hclose, hquote, hcut⟩
  · rw [hcut]
    exact .openParen cs
  · rw [hcut]
    exact .closeParen cs
  · have hkind : TokenKind.ofLexeme (cutLexeme '"' cs).1 =
        .quoted (String.ofList (withoutEscapes (cutLexeme '"' cs).1)) := by
      rw [hcut, ← unescape_eq_withoutEscapes]
      rfl
    rw [hkind, hcut]
    cases hclosed : hasClosingQuote cs with
    | true =>
      obtain ⟨body, hbody, hescaped, hnext⟩ := exists_cutQuoted_of_closed hclosed
      rw [hbody]
      exact .closed hescaped hnext
    | false =>
      rw [cutQuoted_of_open hclosed]
      exact .unclosed (quotesEscaped_of_open hclosed)
  · have hkind : TokenKind.ofLexeme (cutLexeme c cs).1 =
        .atom (String.ofList (cutLexeme c cs).1) := by
      simp [hcut, TokenKind.ofLexeme, hopen, hclose, hquote]
    rw [hkind, hcut]
    refine .atom hc hopen hclose hquote (fun d hd => ?_) fun d hd => ?_
    · simpa [isAtomChar] using List.mem_takeWhile_imp hd
    · rw [← List.find?_not_eq_head?_dropWhile] at hd
      simpa [isAtomChar, or_iff_not_imp_left] using List.find?_some hd

/-! ### One token behind the other -/

theorem tokensFrom_cons {c : Char} (hc : ¬isBlank c) (pos : ℕ) (cs : List Char) :
    tokensFrom pos (c :: cs) =
      ⟨.ofLexeme (cutLexeme c cs).1, ⟨pos, pos + byteLength (cutLexeme c cs).1⟩⟩ ::
        tokensFrom (pos + byteLength (cutLexeme c cs).1) (cutLexeme c cs).2 := by
  rw [tokensFrom, if_neg hc]

theorem le_start_of_mem_tokensFrom {pos : ℕ} {cs : List Char} :
    ∀ t ∈ tokensFrom pos cs, pos ≤ t.span.start := by
  fun_induction tokensFrom pos cs with
  | case1 => simp
  | case2 pos c cs hc ih => exact fun t ht => le_trans (Nat.le_add_right _ _) (ih t ht)
  | case3 pos c cs hc lexeme stop ih =>
    refine List.forall_mem_cons.2 ⟨le_rfl, fun t ht => ?_⟩
    exact le_trans (Nat.le_add_right _ _) (ih t ht)

/-- Whether no token is empty and each one ends before the next one starts. -/
structure InOrder (ts : List Token) : Prop where
  nonempty : ∀ t ∈ ts, t.span.start < t.span.stop
  ordered : ts.Pairwise fun t u => t.span.stop ≤ u.span.start

theorem inOrder_tokensFrom (pos : ℕ) (cs : List Char) : InOrder (tokensFrom pos cs) := by
  fun_induction tokensFrom pos cs with
  | case1 => exact ⟨by simp, .nil⟩
  | case2 pos c cs hc ih => exact ih
  | case3 pos c cs hc lexeme stop ih =>
    obtain ⟨d, ds, hlexeme⟩ := List.exists_cons_of_ne_nil (cutLexeme_ne_nil c cs)
    have hpos : 0 < byteLength lexeme := by
      rw [show lexeme = d :: ds from hlexeme]
      exact byteLength_pos d ds
    exact ⟨List.forall_mem_cons.2 ⟨Nat.lt_add_of_pos_right hpos, ih.nonempty⟩,
      .cons le_start_of_mem_tokensFrom ih.ordered⟩

/-- Whether the span `s` cuts a text into `front`, `piece` and `back`. -/
structure Span.Cuts (s : Span) (cs front piece back : List Char) : Prop where
  text : cs = front ++ (piece ++ back)
  start : s.start = byteLength front
  stop : s.stop = byteLength front + byteLength piece

theorem Span.Cuts.unique {s : Span} {cs front piece back front' piece' back' : List Char}
    (h : s.Cuts cs front piece back) (h' : s.Cuts cs front' piece' back') :
    front = front' ∧ piece = piece' := by
  obtain rfl : front = front' := by
    rw [← takeBytes_append front (piece ++ back), ← h.text, ← h.start, h'.start, h'.text,
      takeBytes_append]
  have hrest := List.append_cancel_left (h.text.symm.trans h'.text)
  have hlength : byteLength piece = byteLength piece' := by
    have := h.stop
    have := h'.stop
    omega
  refine ⟨rfl, ?_⟩
  rw [← takeBytes_append piece back, hlength, hrest, takeBytes_append]

/-- The tokens from any one on are those of the rest of the text. -/
theorem exists_tokensFrom_of_append {t : Token} {ts : List Token} (pos : ℕ) (cs : List Char) :
    ∀ us, tokensFrom pos cs = us ++ t :: ts → ∃ front c rest, cs = front ++ c :: rest ∧
      ¬isBlank c ∧ tokensFrom (pos + byteLength front) (c :: rest) = t :: ts := by
  fun_induction tokensFrom pos cs with
  | case1 => simp
  | case2 pos c cs hc ih =>
    intro us h
    obtain ⟨front, d, rest, rfl, hd, hrest⟩ := ih us h
    exact ⟨c :: front, d, rest, rfl, hd, by simpa [Nat.add_assoc] using hrest⟩
  | case3 pos c cs hc lexeme stop ih =>
    rintro (_ | ⟨u, us⟩) h
    · exact ⟨[], c, cs, rfl, hc, by rwa [tokensFrom_cons hc]⟩
    · obtain ⟨front, d, rest, hcut, hd, hrest⟩ := ih us (List.cons.inj h).2
      refine ⟨lexeme ++ front, d, rest, ?_, hd, ?_⟩
      · rw [List.append_assoc, ← hcut, cutLexeme_append]
      · simpa [stop, Nat.add_assoc] using hrest

/-- Every character that no token covers is blank. -/
theorem isBlank_of_not_covered {c : Char} {back : List Char} (pos : ℕ) (cs : List Char) :
    ∀ front, cs = front ++ c :: back → (∀ t ∈ tokensFrom pos cs,
      ¬(t.span.start ≤ pos + byteLength front ∧ pos + byteLength front < t.span.stop)) →
      isBlank c := by
  fun_induction tokensFrom pos cs with
  | case1 => simp
  | case2 pos d cs hd ih =>
    rintro (_ | ⟨e, front⟩) hcs h
    · cases hcs
      exact hd
    · cases hcs
      refine ih front rfl fun t ht => ?_
      simpa [Nat.add_assoc] using h t ht
  | case3 pos d cs hd lexeme stop ih =>
    intro front hcs h
    obtain ⟨hfirst, hrest⟩ := List.forall_mem_cons.1 h
    have hcut := cutLexeme_append d cs
    rw [hcs] at hcut
    rcases List.append_eq_append_iff.1 hcut with ⟨gap, hfront, hgap⟩ | ⟨piece, hlexeme, hpiece⟩
    · -- The character stands behind the first token.
      refine ih gap hgap fun t ht => ?_
      have := hrest t ht
      rw [hfront, byteLength_append] at this
      simpa [stop, lexeme, Nat.add_assoc] using this
    · rcases piece with _ | ⟨e, piece⟩
      · -- It is the first one behind this token.
        refine ih [] hpiece.symm fun t ht => ?_
        have := hrest t ht
        rw [List.append_nil] at hlexeme
        simpa [stop, lexeme, hlexeme] using this
      · -- It would belong to the first token.
        have := byteLength_pos e piece
        simp only [stop, lexeme, hlexeme, byteLength_append] at hfirst
        omega

/-! ### The layout of a text -/

/-- Whether some tokens, one behind the other, account for all of a text. -/
structure Layout (cs : List Char) (ts : List Token) : Prop extends InOrder ts where
  /-- The span of each token cuts out whole characters, which spell the token. -/
  spelled : ∀ t ∈ ts, ∃ front lexeme back, t.span.Cuts cs front lexeme back ∧
    Spells t.kind lexeme back
  /-- What no token covers is blank. -/
  blank : ∀ front c back, cs = front ++ c :: back →
    (∀ t ∈ ts, ¬(t.span.start ≤ byteLength front ∧ byteLength front < t.span.stop)) → isBlank c

/-- **The lexer is total and exact.** Every text can be read to its end by longest matches of the
patterns of the tokens, in one way only. What is read are the tokens of the text; they stand in it
one behind the other, each spelled by the characters it covers, with only blanks around them. -/
theorem layout_tokenize (source : String) :
    (∀ ts, Munched 0 source.toList ts ↔ ts = tokenize source) ∧
      Layout source.toList (tokenize source) := by
  refine ⟨fun ts => munched_iff, inOrder_tokensFrom 0 _, ?_, ?_⟩
  · intro t ht
    obtain ⟨us, ts, hts⟩ := List.append_of_mem ht
    obtain ⟨front, c, rest, htext, hc, hrest⟩ := exists_tokensFrom_of_append 0 _ us hts
    rw [tokensFrom_cons hc, Nat.zero_add] at hrest
    obtain ⟨rfl, -⟩ := List.cons.inj hrest
    refine ⟨front, _, _, ⟨?_, rfl, rfl⟩, spells_cutLexeme hc rest⟩
    rw [htext, cutLexeme_append]
  · intro front c back htext h
    refine isBlank_of_not_covered 0 _ front htext fun t ht => ?_
    simpa using h t ht

/-! ### Tokens and lexemes -/

/-- The tokens of the second part of a text follow those of the first part. -/
theorem tokensFrom_append {cs ds : List Char} (h : endsInString cs = false)
    (hds : ∀ d ∈ ds.head?, isAtomChar d = false) (pos : ℕ) :
    tokensFrom pos (cs ++ ds) = tokensFrom pos cs ++ tokensFrom (pos + byteLength cs) ds := by
  fun_induction tokensFrom pos cs with
  | case1 => rfl
  | case2 pos c cs hc ih =>
    rw [endsInString_cons_of_blank hc] at h
    rw [List.cons_append, tokensFrom, if_pos hc, ih h, byteLength_cons, Nat.add_assoc]
  | case3 pos c cs hc lexeme stop ih =>
    rw [endsInString_cons hc, Bool.or_eq_false_iff] at h
    rw [List.cons_append, tokensFrom_cons hc, cutLexeme_append_of_head h.1 hds, ih h.2,
      List.cons_append, ← cutLexeme_append c cs, byteLength_append, Nat.add_assoc]

/-- Each token covers its lexeme, and only at the end of a text can it be a string that is not
closed. -/
theorem forall₂_lexemes (pos : ℕ) (cs : List Char) :
    List.Forall₂ (fun t lexeme => ∃ front back, cs = front ++ (lexeme ++ back) ∧
        t.span = ⟨pos + byteLength front, pos + byteLength front + byteLength lexeme⟩ ∧
        (isUnclosed lexeme → back = []))
      (tokensFrom pos cs) (lexemes cs) := by
  fun_induction tokensFrom pos cs with
  | case1 =>
    rw [lexemes_nil]
    exact .nil
  | case2 pos c cs hc ih =>
    rw [lexemes_cons_of_blank hc]
    refine ih.imp ?_
    rintro t lexeme ⟨front, back, rfl, hspan, hback⟩
    exact ⟨c :: front, back, rfl, by rw [hspan, byteLength_cons, Nat.add_assoc], hback⟩
  | case3 pos c cs hc lexeme stop ih =>
    rw [lexemes_cons hc]
    refine .cons ⟨[], (cutLexeme c cs).2, (cutLexeme_append c cs).symm, rfl, fun h => ?_⟩ ?_
    · exact (cutLexeme_of_unclosed h).2.2
    · refine ih.imp ?_
      rintro t lexeme' ⟨front, back, hrest, hspan, hback⟩
      refine ⟨lexeme ++ front, back, ?_, ?_, hback⟩
      · rw [List.append_assoc, ← hrest, cutLexeme_append]
      · rw [hspan, byteLength_append, ← Nat.add_assoc]

/-! ### Cutting tokens out of a text -/

/-- A quoted text is read the same when the text behind it is cut short. -/
theorem cutQuoted_of_append {cs piece back : List Char} (h : (cutQuoted cs).2 = piece ++ back) :
    cutQuoted ((cutQuoted cs).1 ++ piece) = ((cutQuoted cs).1, piece) := by
  fun_induction cutQuoted cs with
  | case1 =>
    obtain ⟨rfl, -⟩ := List.append_eq_nil_iff.1 h.symm
    rfl
  | case2 cs => rfl
  | case3 c cs ih => simp [cutQuoted, ih h]
  | case4 c cs hquote hescape ih =>
    by_cases hne : c = '\\'
    · -- The backslash is the last character of the whole text.
      subst hne
      cases cs with
      | nil =>
        obtain ⟨rfl, -⟩ := List.append_eq_nil_iff.1 h.symm
        rfl
      | cons d cs => exact absurd rfl (hescape d cs rfl)
    · rw [List.cons_append, cutQuoted_cons hquote hne, ih h]

/-- The first lexeme of a text is read the same when the text behind it is cut short. -/
theorem exists_cutLexeme_of_append {c : Char} {cs piece back : List Char}
    (h : (cutLexeme c cs).2 = piece ++ back) :
    ∃ tail, (cutLexeme c cs).1 = c :: tail ∧
      cutLexeme c (tail ++ piece) = ((cutLexeme c cs).1, piece) := by
  rcases cutLexeme_cases c cs with
    ⟨rfl, hcut⟩ | ⟨rfl, hcut⟩ | ⟨rfl, hcut⟩ | ⟨hopen, hclose, hquote, hcut⟩
  · rw [hcut]
    exact ⟨[], rfl, rfl⟩
  · rw [hcut]
    exact ⟨[], rfl, rfl⟩
  · rw [hcut] at h ⊢
    refine ⟨_, rfl, ?_⟩
    simp [cutLexeme, cutQuoted_of_append h]
  · rw [hcut] at h ⊢
    refine ⟨_, rfl, ?_⟩
    have hatom : ∀ d ∈ cs.takeWhile isAtomChar, isAtomChar d := fun d => List.mem_takeWhile_imp
    have hpiece : ∀ d ∈ piece.head?, isAtomChar d = false := by
      intro d hd
      have hhead : (cs.dropWhile isAtomChar).head? = some d := by
        rw [show cs.dropWhile isAtomChar = piece ++ back from h, List.head?_append, hd,
          Option.some_or]
      rw [← List.find?_not_eq_head?_dropWhile] at hhead
      simpa using List.find?_some hhead
    obtain ⟨htake, hdrop⟩ := takeWhile_append_of_head hpiece (cs.takeWhile isAtomChar)
    rw [List.takeWhile_eq_self_iff.2 hatom] at htake
    rw [List.dropWhile_eq_nil_iff.2 hatom] at hdrop
    simp [cutLexeme, hopen, hclose, hquote, htake, hdrop]

/-- So the first token stays the same, and those of the text behind it follow. -/
theorem tokensFrom_cutLexeme_append {c : Char} {cs piece back : List Char} (hc : ¬isBlank c)
    (pos : ℕ) (h : (cutLexeme c cs).2 = piece ++ back) :
    tokensFrom pos ((cutLexeme c cs).1 ++ piece) =
      ⟨.ofLexeme (cutLexeme c cs).1, ⟨pos, pos + byteLength (cutLexeme c cs).1⟩⟩ ::
        tokensFrom (pos + byteLength (cutLexeme c cs).1) piece := by
  obtain ⟨tail, hlexeme, hcut⟩ := exists_cutLexeme_of_append h
  rw [hlexeme, List.cons_append, tokensFrom_cons hc, hcut, hlexeme]

/-- The first tokens of a text are those of a piece at its front, which ends where they end. -/
theorem exists_tokensFrom_eq {t : Token} {us : List Token} (pos : ℕ) (cs : List Char) :
    ∀ ts, tokensFrom pos cs = ts ++ t :: us → ∃ piece back, cs = piece ++ back ∧
      tokensFrom pos piece = ts ++ [t] ∧ t.span.stop = pos + byteLength piece := by
  fun_induction tokensFrom pos cs with
  | case1 => simp
  | case2 pos c cs hc ih =>
    intro ts h
    obtain ⟨piece, back, rfl, hpiece, hstop⟩ := ih ts h
    refine ⟨c :: piece, back, rfl, ?_, by simpa [Nat.add_assoc] using hstop⟩
    rw [tokensFrom, if_pos hc, hpiece]
  | case3 pos c cs hc lexeme stop ih =>
    have hcut := cutLexeme_append c cs
    rintro (_ | ⟨u, ts⟩) h
    · obtain ⟨rfl, -⟩ := List.cons.inj h
      have htoken := tokensFrom_cutLexeme_append hc pos (List.nil_append (cutLexeme c cs).2).symm
      rw [List.append_nil, tokensFrom] at htoken
      exact ⟨lexeme, _, hcut.symm, htoken, rfl⟩
    · obtain ⟨rfl, hrest⟩ := List.cons.inj h
      obtain ⟨piece, back, hback, hpiece, hstop⟩ := ih ts hrest
      refine ⟨lexeme ++ piece, back, ?_, ?_, ?_⟩
      · rw [List.append_assoc, ← hback, hcut]
      · rw [tokensFrom_cutLexeme_append hc pos hback, hpiece]
        rfl
      · rw [hstop, byteLength_append, ← Nat.add_assoc]

/-- **Tokens can be cut out of a text.** The piece of a text from the start of one of its tokens to
the end of a later one has just the tokens between them. -/
theorem exists_cut_tokensFrom {cs : List Char} {us ts vs : List Token} {t u : Token}
    (h : tokensFrom 0 cs = us ++ (ts ++ vs)) (ht : ts.head? = some t) (hu : ts.getLast? = some u) :
    ∃ front piece back, Span.Cuts ⟨t.span.start, u.span.stop⟩ cs front piece back ∧
      tokensFrom t.span.start piece = ts := by
  obtain ⟨ts', htail⟩ := List.head?_eq_some_iff.1 ht
  obtain ⟨ts'', hlast⟩ := List.getLast?_eq_some_iff.1 hu
  obtain ⟨front, c, rest, rfl, hc, hrest⟩ := exists_tokensFrom_of_append 0 cs us (by
    rw [h, htail, List.cons_append])
  have hstart : t.span.start = byteLength front := by
    rw [tokensFrom_cons hc, Nat.zero_add] at hrest
    rw [← (List.cons.inj hrest).1]
  rw [Nat.zero_add, ← hstart, ← List.cons_append, ← htail, hlast, List.append_assoc] at hrest
  obtain ⟨piece, back, htext, hpiece, hstop⟩ := exists_tokensFrom_eq _ _ ts'' hrest
  exact ⟨front, piece, back, ⟨by rw [htext], hstart, by rw [hstop, hstart]⟩, by rw [hpiece, hlast]⟩

/-! ### The atom at the end of a text -/

variable {pos start : ℕ} {cs ds : List Char} {ts : List Token} {source P : String} {s : Span}

theorem tokensFrom_eq_nil_iff : tokensFrom pos cs = [] ↔ ∀ c ∈ cs, isBlank c := by
  fun_induction tokensFrom pos cs with
  | case1 => simp
  | case2 pos c cs hc ih => simp [ih, hc]
  | case3 pos c cs hc lexeme stop ih => simp [hc]

/-- A first lexeme that is not all of a text does not depend on what follows the text. -/
theorem cutLexeme_append_of_ne_nil {c : Char} (h : (cutLexeme c cs).2 ≠ []) (ds : List Char) :
    cutLexeme c (cs ++ ds) = ((cutLexeme c cs).1, (cutLexeme c cs).2 ++ ds) := by
  rcases cutLexeme_cases c cs with ⟨rfl, -⟩ | ⟨rfl, -⟩ | ⟨rfl, hcut⟩ | ⟨ho, hc, hq, hcut⟩
  · rfl
  · rfl
  · rw [hcut] at h
    have hclosed : hasClosingQuote cs := by
      by_contra hopen
      exact h (by rw [cutQuoted_of_open (Bool.eq_false_iff.2 hopen)])
    simp [cutLexeme, cutQuoted_append_of_closed hclosed]
  · rw [hcut] at h
    have hlength : (cs.takeWhile isAtomChar ++ cs.dropWhile isAtomChar).length = cs.length := by
      rw [List.takeWhile_append_dropWhile]
    have hpos : 0 < (cs.dropWhile isAtomChar).length := List.length_pos_iff.2 h
    rw [List.length_append] at hlength
    have htake : (cs ++ ds).takeWhile isAtomChar = cs.takeWhile isAtomChar := by
      rw [List.takeWhile_append, if_neg (by omega)]
    have hdrop : (cs ++ ds).dropWhile isAtomChar = cs.dropWhile isAtomChar ++ ds := by
      rw [List.dropWhile_append, if_neg (by simpa using h)]
    simp [cutLexeme, ho, hc, hq, htake, hdrop]

/-- An atom starts with its first character and goes on as long as it can. -/
theorem cutLexeme_of_atom {c : Char}
    (h : TokenKind.ofLexeme (cutLexeme c cs).1 = .atom P) :
    c ≠ '(' ∧ c ≠ ')' ∧ c ≠ '"' ∧ P.toList = c :: cs.takeWhile isAtomChar ∧
      cutLexeme c cs = (P.toList, cs.dropWhile isAtomChar) := by
  rcases cutLexeme_cases c cs with ⟨-, hcut⟩ | ⟨-, hcut⟩ | ⟨-, hcut⟩ | ⟨ho, hc, hq, hcut⟩
  · rw [hcut] at h
    cases h
  · rw [hcut] at h
    cases h
  · rw [hcut] at h
    cases h
  · have hkind : TokenKind.ofLexeme (cutLexeme c cs).1 =
        .atom (String.ofList (cutLexeme c cs).1) := by
      simp [hcut, TokenKind.ofLexeme, ho, hc, hq]
    obtain rfl : P = String.ofList (cutLexeme c cs).1 := by
      rw [hkind] at h
      cases h
      rfl
    rw [String.toList_ofList, hcut]
    exact ⟨ho, hc, hq, rfl, rfl⟩

theorem eq_nil_of_byteLength (h : byteLength cs = 0) : cs = [] := by
  cases cs with
  | nil => rfl
  | cons c cs => exact absurd h (Nat.ne_of_gt (byteLength_pos c cs))

/-- An atom that takes up all of a text goes on with what follows. -/
theorem cutLexeme_append_of_atom {c : Char} (h : TokenKind.ofLexeme (cutLexeme c cs).1 = .atom P)
    (hend : (cutLexeme c cs).2 = []) (hds : ∀ d ∈ ds, isAtomChar d) :
    cutLexeme c (cs ++ ds) = (c :: (cs ++ ds), []) ∧
      TokenKind.ofLexeme (c :: (cs ++ ds)) = .atom (P ++ String.ofList ds) := by
  obtain ⟨ho, hc, hq, hP, hcut⟩ := cutLexeme_of_atom h
  have hcs : ∀ d ∈ cs, isAtomChar d := by
    rw [hcut] at hend
    simpa using hend
  have hall : ∀ d ∈ cs ++ ds, isAtomChar d := List.forall_mem_append.2 ⟨hcs, hds⟩
  rw [List.takeWhile_eq_self_iff.2 hcs] at hP
  constructor
  · simp only [cutLexeme, ho, hc, hq, or_self, if_false, List.takeWhile_eq_self_iff.2 hall,
      List.dropWhile_eq_nil_iff.2 hall]
  · have htext : P ++ String.ofList ds = String.ofList (c :: (cs ++ ds)) := by
      rw [← List.cons_append, ← hP, String.ofList_append, String.ofList_toList]
    simp [TokenKind.ofLexeme, ho, hc, hq, htext]

/-- Going on with the atom at the end of a text leaves the tokens in front of it as they are. -/
theorem tokensFrom_append_of_atom (pos : ℕ) (cs : List Char) :
    ∀ ts, tokensFrom pos cs = ts ++ [⟨.atom P, ⟨start, pos + byteLength cs⟩⟩] →
      (∀ d ∈ ds, isAtomChar d) →
        tokensFrom pos (cs ++ ds) =
          ts ++ [⟨.atom (P ++ String.ofList ds), ⟨start, pos + byteLength (cs ++ ds)⟩⟩] := by
  fun_induction tokensFrom pos cs with
  | case1 => simp
  | case2 pos c cs hc ih =>
    intro ts h hds
    rw [byteLength_cons, ← Nat.add_assoc] at h
    rw [List.cons_append, tokensFrom, if_pos hc, ih ts h hds, byteLength_cons, Nat.add_assoc]
  | case3 pos c cs hc lexeme stop ih =>
    have hcut := cutLexeme_append c cs
    have hbytes : pos + byteLength (c :: cs) = stop + byteLength (cutLexeme c cs).2 := by
      rw [← hcut, byteLength_append, Nat.add_assoc]
    rintro (_ | ⟨u, ts⟩) h hds
    · -- The atom is the first token and takes up all of the text.
      obtain ⟨htoken, -⟩ := List.cons.inj h
      obtain ⟨hkind, rfl, hstop⟩ : _ ∧ pos = start ∧ stop = pos + byteLength (c :: cs) := by
        simpa using htoken
      obtain ⟨hcut', hkind'⟩ := cutLexeme_append_of_atom hkind
        (eq_nil_of_byteLength (by omega)) hds
      rw [List.cons_append, tokensFrom_cons hc, hcut', tokensFrom, hkind']
      rfl
    · obtain ⟨rfl, hrest⟩ := List.cons.inj h
      have hne : (cutLexeme c cs).2 ≠ [] := by
        intro hnil
        rw [hnil, tokensFrom] at hrest
        simp at hrest
      rw [hbytes] at hrest
      have hbytes' : pos + byteLength (c :: (cs ++ ds)) =
          stop + byteLength ((cutLexeme c cs).2 ++ ds) := by
        simp only [byteLength_cons, byteLength_append] at hbytes ⊢
        omega
      rw [List.cons_append, tokensFrom_cons hc, cutLexeme_append_of_ne_nil hne, ih ts hrest hds,
        hbytes']
      rfl

/-- Behind an atom that is the last token there are only blanks, and none in it. -/
theorem exists_tail_of_last_atom (h : tokenize source = ts ++ [⟨.atom P, s⟩]) :
    ∃ pre tail, source.toList = pre ++ P.toList ++ tail ∧ (∀ d ∈ P.toList, ¬isBlank d) ∧
      P.toList ≠ [] ∧ (∀ d ∈ tail, isBlank d) ∧
      s.stop = byteLength pre + byteLength P.toList := by
  obtain ⟨pre, c, cs, hsource, hc, hlast⟩ := exists_tokensFrom_of_append 0 source.toList ts h
  rw [tokensFrom_cons hc, Nat.zero_add] at hlast
  obtain ⟨htoken, htail⟩ := List.cons.inj hlast
  obtain ⟨hkind, rfl⟩ := Token.mk.inj htoken
  obtain ⟨-, -, -, hP, hcut⟩ := cutLexeme_of_atom hkind
  have hchars : ∀ d ∈ P.toList, ¬isBlank d := by
    rw [hP]
    refine List.forall_mem_cons.2 ⟨hc, fun d hd => ?_⟩
    have : isAtomChar d := List.mem_takeWhile_imp hd
    simp_all [isAtomChar]
  have htext := cutLexeme_append c cs
  rw [hcut] at htext htail
  refine ⟨pre, cs.dropWhile isAtomChar, ?_, hchars, by simp [hP], tokensFrom_eq_nil_iff.1 htail, ?_⟩
  · rw [hsource, ← htext, List.append_assoc]
  · rw [hcut]

end FixpointLisp
