import FixpointLisp.Proofs.Token.Lexemes
import Mathlib.Computability.Language

/-!
# The patterns of the tokens

The tokens of a text are given by patterns: a run of blanks, one of the two brackets, a quoted text
and an atom. A text is read from its front, and each time the longest piece that matches a pattern
is taken. The lexer does the same without any search, because the first character of a piece decides
on its pattern.

* `Pattern.language` is the set of texts that match a pattern.
* `LongestMatch`: the longest piece at the front of a text that matches any pattern.
* `longestMatch_cutLexeme`: this piece is the first lexeme, where the text does not start with a
  blank.
* `Munched`: the tokens of a text that is read in this way to its end.
* `munched_iff`: every text can be read so, and its tokens are those of the lexer.
-/

namespace FixpointLisp

open Text Computability

/-! ### Languages of characters -/

/-- The texts of a single character that satisfies `p`. -/
def oneOf (p : Char → Prop) : Language Char := {cs | ∃ c, p c ∧ cs = [c]}

theorem mem_oneOf_mul {p : Char → Prop} {l : Language Char} {cs : List Char} :
    cs ∈ oneOf p * l ↔ ∃ c ds, p c ∧ ds ∈ l ∧ cs = c :: ds := by
  rw [Language.mem_mul]
  constructor
  · rintro ⟨_, ⟨c, hc, rfl⟩, ds, hds, rfl⟩
    exact ⟨c, ds, hc, hds, rfl⟩
  · rintro ⟨c, ds, hc, hds, rfl⟩
    exact ⟨[c], ⟨c, hc, rfl⟩, ds, hds, rfl⟩

theorem mem_kstar_oneOf {p : Char → Prop} {cs : List Char} :
    cs ∈ (oneOf p)∗ ↔ ∀ c ∈ cs, p c := by
  rw [← Language.one_add_self_mul_kstar_eq_kstar, Language.mem_add, mem_oneOf_mul]
  induction cs with
  | nil => simp
  | cons c cs ih =>
    rw [← mem_oneOf_mul, ← Language.mem_add, Language.one_add_self_mul_kstar_eq_kstar] at ih
    simp [ih]

/-! ### Patterns -/

/-- The patterns that divide a text into pieces. -/
inductive Pattern where
  | blanks
  | openParen
  | closeParen
  | quoted
  | atom
  deriving DecidableEq

/-- A character inside of a quoted text: one other than a quote and a backslash, or any character
with a backslash in front of it. -/
def quotedChar : Language Char :=
  oneOf (fun c => c ≠ '"' ∧ c ≠ '\\') + oneOf (· = '\\') * oneOf fun _ => True

/-- The end of a quoted text: perhaps a backslash, then perhaps a quote. -/
def quotedEnd : Language Char := (1 + oneOf (· = '\\')) * (1 + oneOf (· = '"'))

/-- What stands behind the quote that opens a quoted text. -/
def quotedRest : Language Char := quotedChar∗ * quotedEnd

namespace Pattern

/-- The texts that match a pattern. -/
def language : Pattern → Language Char
  | blanks => oneOf (isBlank ·) * (oneOf (isBlank ·))∗
  | openParen => oneOf (· = '(')
  | closeParen => oneOf (· = ')')
  | quoted => oneOf (· = '"') * quotedRest
  | atom =>
    oneOf (fun c => ¬isBlank c ∧ c ≠ '(' ∧ c ≠ ')' ∧ c ≠ '"') *
      (oneOf fun c => ¬isBlank c ∧ c ≠ ')')∗

/-- What a piece that matches a pattern spells, unless it is only passed over. -/
def kind? : Pattern → List Char → Option TokenKind
  | blanks, _ => none
  | openParen, _ => some .openParen
  | closeParen, _ => some .closeParen
  | quoted, lexeme => some (.quoted (String.ofList (unescape lexeme)))
  | atom, lexeme => some (.atom (String.ofList lexeme))

theorem kind?_eq_none_iff {p : Pattern} {cs : List Char} : p.kind? cs = none ↔ p = .blanks := by
  cases p <;> simp [kind?]

/-- The only pattern that a text with the given first character can match. -/
def ofHead (c : Char) : Pattern :=
  if isBlank c then blanks
  else if c = '(' then openParen
  else if c = ')' then closeParen
  else if c = '"' then quoted
  else atom

theorem exists_cons_of_mem {p : Pattern} {cs : List Char} (h : cs ∈ p.language) :
    ∃ c ds, cs = c :: ds ∧ p = ofHead c := by
  cases p with
  | blanks =>
    obtain ⟨c, ds, hc, -, rfl⟩ := mem_oneOf_mul.1 h
    exact ⟨c, ds, rfl, by simp [ofHead, hc]⟩
  | openParen =>
    obtain ⟨c, rfl, rfl⟩ := h
    exact ⟨'(', [], rfl, by decide⟩
  | closeParen =>
    obtain ⟨c, rfl, rfl⟩ := h
    exact ⟨')', [], rfl, by decide⟩
  | quoted =>
    obtain ⟨c, ds, rfl, -, rfl⟩ := mem_oneOf_mul.1 h
    exact ⟨'"', ds, rfl, by decide⟩
  | atom =>
    obtain ⟨c, ds, ⟨hblank, hopen, hclose, hquote⟩, -, rfl⟩ := mem_oneOf_mul.1 h
    exact ⟨c, ds, rfl, by simp [ofHead, hblank, hopen, hclose, hquote]⟩

/-- A piece that does not start with a blank spells what the lexer reads in it. -/
theorem kind?_ofHead {c : Char} (hc : ¬isBlank c) (ds : List Char) :
    (ofHead c).kind? (c :: ds) = some (TokenKind.ofLexeme (c :: ds)) := by
  unfold ofHead
  rw [if_neg hc]
  split_ifs with hopen hclose hquote
  · subst hopen
    rfl
  · subst hclose
    rfl
  · subst hquote
    rfl
  · simp [kind?, TokenKind.ofLexeme, hopen, hclose, hquote]

end Pattern

/-! ### Longest matches -/

/-- Whether `lexeme` matches the pattern `p` and is the longest text at the front of `cs` that
matches any pattern. -/
structure LongestMatch (p : Pattern) (lexeme cs : List Char) : Prop where
  mem : lexeme ∈ p.language
  front : lexeme <+: cs
  longest : ∀ q : Pattern, ∀ ds ∈ q.language, ds <+: cs → ds.length ≤ lexeme.length

theorem LongestMatch.unique {p q : Pattern} {lexeme lexeme' cs : List Char}
    (h : LongestMatch p lexeme cs) (h' : LongestMatch q lexeme' cs) :
    lexeme = lexeme' ∧ p = q := by
  have hlength : lexeme.length = lexeme'.length :=
    le_antisymm (h'.longest p _ h.mem h.front) (h.longest q _ h'.mem h'.front)
  obtain rfl : lexeme = lexeme' :=
    (List.prefix_of_prefix_length_le h.front h'.front hlength.le).eq_of_length hlength
  obtain ⟨c, ds, rfl, rfl⟩ := Pattern.exists_cons_of_mem h.mem
  obtain ⟨d, es, heq, rfl⟩ := Pattern.exists_cons_of_mem h'.mem
  cases heq
  exact ⟨rfl, rfl⟩

/-- For a longest match, only the pattern of the first character has to be looked at. -/
theorem LongestMatch.of_ofHead {c : Char} {lexeme cs : List Char}
    (hmem : lexeme ∈ (Pattern.ofHead c).language) (hfront : lexeme <+: c :: cs)
    (hlongest : ∀ ds ∈ (Pattern.ofHead c).language, ds <+: c :: cs → ds.length ≤ lexeme.length) :
    LongestMatch (.ofHead c) lexeme (c :: cs) := by
  refine ⟨hmem, hfront, fun q ds hds hprefix => ?_⟩
  obtain ⟨d, es, rfl, rfl⟩ := Pattern.exists_cons_of_mem hds
  obtain rfl : d = c := (List.cons_prefix_cons.1 hprefix).1
  exact hlongest _ hds hprefix

/-- Of the texts whose characters all satisfy `p`, the longest at the front of a text is the run of
such characters there. -/
theorem length_le_takeWhile {p : Char → Bool} {cs ds : List Char} (hds : ∀ c ∈ ds, p c)
    (h : ds <+: cs) : ds.length ≤ (cs.takeWhile p).length := by
  obtain ⟨es, rfl⟩ := h
  rw [List.takeWhile_append_of_pos hds, List.length_append]
  exact Nat.le_add_right _ _

theorem mem_blanks_iff {cs : List Char} :
    cs ∈ Pattern.blanks.language ↔ cs ≠ [] ∧ ∀ c ∈ cs, isBlank c := by
  rw [Pattern.language, mem_oneOf_mul]
  cases cs <;> simp [mem_kstar_oneOf]

theorem longestMatch_blanks {c : Char} (hc : isBlank c) (cs : List Char) :
    LongestMatch .blanks ((c :: cs).takeWhile isBlank) (c :: cs) := by
  have hhead : Pattern.ofHead c = .blanks := by simp [Pattern.ofHead, hc]
  have hmem : (c :: cs).takeWhile isBlank ∈ Pattern.blanks.language :=
    mem_blanks_iff.2 ⟨by simp [hc], fun d => List.mem_takeWhile_imp⟩
  rw [← hhead] at hmem ⊢
  refine .of_ofHead hmem (List.takeWhile_prefix _) fun ds hds hprefix => ?_
  rw [hhead] at hds
  exact length_le_takeWhile (mem_blanks_iff.1 hds).2 hprefix

/-! ### Quoted texts -/

theorem mem_quotedEnd_iff {cs : List Char} :
    cs ∈ quotedEnd ↔ cs = [] ∨ cs = ['"'] ∨ cs = ['\\'] ∨ cs = ['\\', '"'] := by
  have hone : ∀ (d : Char) (ds : List Char), ds ∈ 1 + oneOf (· = d) ↔ ds = [] ∨ ds = [d] := by
    intro d ds
    rw [Language.mem_add, ← mul_one (oneOf _), mem_oneOf_mul]
    simp
  rw [quotedEnd, Language.mem_mul]
  simp only [hone]
  constructor
  · rintro ⟨_, rfl | rfl, _, rfl | rfl, rfl⟩ <;> simp
  · rintro (rfl | rfl | rfl | rfl) <;> simp

theorem quotedRest_eq : quotedRest = quotedChar * quotedRest + quotedEnd := by
  refine (Language.self_eq_mul_add_iff ?_).2 rfl
  rw [quotedChar, Language.mem_add, mem_oneOf_mul]
  rintro (⟨c, -, hc⟩ | ⟨c, ds, -, -, hc⟩) <;> cases hc

/-- Behind an opening quote stands a plain or an escaped character, or the end of the text. -/
theorem mem_quotedRest_iff {cs : List Char} :
    cs ∈ quotedRest ↔
      (∃ c ds, (c ≠ '"' ∧ c ≠ '\\') ∧ ds ∈ quotedRest ∧ cs = c :: ds) ∨
      (∃ c ds, ds ∈ quotedRest ∧ cs = '\\' :: c :: ds) ∨ cs ∈ quotedEnd := by
  conv_lhs => rw [quotedRest_eq, quotedChar, add_mul, mul_assoc]
  rw [Language.mem_add, Language.mem_add, or_assoc, mem_oneOf_mul, mem_oneOf_mul]
  refine or_congr_right (or_congr_left ?_)
  constructor
  · rintro ⟨_, _, rfl, hrest, rfl⟩
    obtain ⟨c, ds, -, hds, rfl⟩ := mem_oneOf_mul.1 hrest
    exact ⟨c, ds, hds, rfl⟩
  · rintro ⟨c, ds, hds, rfl⟩
    exact ⟨'\\', c :: ds, rfl, mem_oneOf_mul.2 ⟨c, ds, trivial, hds, rfl⟩, rfl⟩

theorem cutQuoted_mem (cs : List Char) : (cutQuoted cs).1 ∈ quotedRest := by
  fun_induction cutQuoted cs with
  | case1 => exact mem_quotedRest_iff.2 (.inr (.inr (mem_quotedEnd_iff.2 (by simp))))
  | case2 cs => exact mem_quotedRest_iff.2 (.inr (.inr (mem_quotedEnd_iff.2 (by simp))))
  | case3 c cs ih => exact mem_quotedRest_iff.2 (.inr (.inl ⟨c, _, ih, rfl⟩))
  | case4 c cs hquote hescape ih =>
    by_cases hne : c = '\\'
    · -- The text ends in a backslash that escapes nothing.
      subst hne
      cases cs with
      | nil => exact mem_quotedRest_iff.2 (.inr (.inr (mem_quotedEnd_iff.2 (by simp [cutQuoted]))))
      | cons d cs => exact absurd rfl (hescape d cs rfl)
    · exact mem_quotedRest_iff.2 (.inl ⟨c, _, ⟨hquote, hne⟩, ih, rfl⟩)

/-- No longer piece behind an opening quote could belong to the quoted text. -/
theorem length_le_cutQuoted {cs ds : List Char} (hds : ds ∈ quotedRest) (h : ds <+: cs) :
    ds.length ≤ (cutQuoted cs).1.length := by
  fun_induction cutQuoted cs generalizing ds with
  | case1 => exact h.length_le
  | case2 cs =>
    rcases mem_quotedRest_iff.1 hds with ⟨c, es, hc, -, rfl⟩ | ⟨c, es, -, rfl⟩ | hend
    · exact absurd (List.cons_prefix_cons.1 h).1 hc.1
    · cases (List.cons_prefix_cons.1 h).1
    · rcases mem_quotedEnd_iff.1 hend with rfl | rfl | rfl | rfl <;> simp at h ⊢
  | case3 c cs ih =>
    rcases mem_quotedRest_iff.1 hds with ⟨c, es, hc, -, rfl⟩ | ⟨d, es, hes, rfl⟩ | hend
    · exact absurd (List.cons_prefix_cons.1 h).1 hc.2
    · simp only [List.cons_prefix_cons] at h
      simpa using ih hes h.2.2
    · rcases mem_quotedEnd_iff.1 hend with rfl | rfl | rfl | rfl <;> simp
  | case4 c cs hquote hescape ih =>
    by_cases hne : c = '\\'
    · subst hne
      cases cs with
      | nil => exact h.length_le
      | cons d cs => exact absurd rfl (hescape d cs rfl)
    · rcases mem_quotedRest_iff.1 hds with ⟨d, es, -, hes, rfl⟩ | ⟨d, es, -, rfl⟩ | hend
      · simpa using ih hes (List.cons_prefix_cons.1 h).2
      · exact absurd (List.cons_prefix_cons.1 h).1.symm hne
      · rcases mem_quotedEnd_iff.1 hend with rfl | rfl | rfl | rfl
        · exact Nat.zero_le _
        · exact absurd (List.cons_prefix_cons.1 h).1.symm hquote
        · exact absurd (List.cons_prefix_cons.1 h).1.symm hne
        · exact absurd (List.cons_prefix_cons.1 h).1.symm hne

/-! ### The lexer takes longest matches -/

/-- The first lexeme of a text is the longest piece that matches a pattern. -/
theorem longestMatch_cutLexeme {c : Char} (hc : ¬isBlank c) (cs : List Char) :
    LongestMatch (.ofHead c) (cutLexeme c cs).1 (c :: cs) := by
  have hfront : (cutLexeme c cs).1 <+: c :: cs := ⟨_, cutLexeme_append c cs⟩
  rcases cutLexeme_cases c cs with
    ⟨rfl, hcut⟩ | ⟨rfl, hcut⟩ | ⟨rfl, hcut⟩ | ⟨hopen, hclose, hquote, hcut⟩
  · rw [hcut] at hfront ⊢
    refine .of_ofHead ⟨'(', rfl, rfl⟩ hfront ?_
    rintro _ ⟨d, -, rfl⟩ -
    exact le_rfl
  · rw [hcut] at hfront ⊢
    refine .of_ofHead ⟨')', rfl, rfl⟩ hfront ?_
    rintro _ ⟨d, -, rfl⟩ -
    exact le_rfl
  · rw [hcut] at hfront ⊢
    refine .of_ofHead (mem_oneOf_mul.2 ⟨'"', _, rfl, cutQuoted_mem cs, rfl⟩) hfront ?_
    intro ds hds hprefix
    obtain ⟨d, es, -, hes, rfl⟩ := mem_oneOf_mul.1 hds
    simpa using length_le_cutQuoted hes (List.cons_prefix_cons.1 hprefix).2
  · rw [hcut] at hfront ⊢
    have hhead : Pattern.ofHead c = .atom := by simp [Pattern.ofHead, hc, hopen, hclose, hquote]
    refine .of_ofHead ?_ hfront ?_ <;> rw [hhead]
    · refine mem_oneOf_mul.2 ⟨c, _, ⟨hc, hopen, hclose, hquote⟩, mem_kstar_oneOf.2 ?_, rfl⟩
      intro d hd
      simpa [isAtomChar] using List.mem_takeWhile_imp hd
    · intro ds hds hprefix
      obtain ⟨d, es, -, hes, rfl⟩ := mem_oneOf_mul.1 hds
      have hatom : ∀ e ∈ es, isAtomChar e := fun e he => by
        simpa [isAtomChar] using mem_kstar_oneOf.1 hes e he
      simpa using length_le_takeWhile hatom (List.cons_prefix_cons.1 hprefix).2

/-- The tokens of a text whose first character is at byte `pos`, when it is read to its end by
longest matches. -/
inductive Munched : ℕ → List Char → List Token → Prop
  | done (pos : ℕ) : Munched pos [] []
  | skip {pos : ℕ} {p : Pattern} {lexeme rest : List Char} {ts : List Token}
      (h : LongestMatch p lexeme (lexeme ++ rest)) (hkind : p.kind? lexeme = none)
      (hrest : Munched (pos + byteLength lexeme) rest ts) : Munched pos (lexeme ++ rest) ts
  | token {pos : ℕ} {p : Pattern} {kind : TokenKind} {lexeme rest : List Char} {ts : List Token}
      (h : LongestMatch p lexeme (lexeme ++ rest)) (hkind : p.kind? lexeme = some kind)
      (hrest : Munched (pos + byteLength lexeme) rest ts) :
      Munched pos (lexeme ++ rest) (⟨kind, ⟨pos, pos + byteLength lexeme⟩⟩ :: ts)

theorem tokensFrom_append_of_blank {bs : List Char} (hbs : ∀ b ∈ bs, isBlank b) (pos : ℕ)
    (cs : List Char) : tokensFrom pos (bs ++ cs) = tokensFrom (pos + byteLength bs) cs := by
  induction bs generalizing pos with
  | nil => rfl
  | cons b bs ih =>
    obtain ⟨hb, hbs⟩ := List.forall_mem_cons.1 hbs
    rw [List.cons_append, tokensFrom, if_pos hb, ih hbs, byteLength_cons, Nat.add_assoc]

/-- Every text can be read to its end by longest matches. -/
theorem munched_tokensFrom (pos : ℕ) (cs : List Char) : Munched pos cs (tokensFrom pos cs) := by
  match cs with
  | [] =>
    rw [tokensFrom]
    exact .done pos
  | c :: cs =>
    by_cases hc : isBlank c
    · have hblank : ∀ b ∈ (c :: cs).takeWhile isBlank, isBlank b := fun b => List.mem_takeWhile_imp
      have hsplit := (c :: cs).takeWhile_append_dropWhile (p := isBlank)
      have hmatch := longestMatch_blanks hc cs
      have hrest := munched_tokensFrom (pos + byteLength ((c :: cs).takeWhile isBlank))
        ((c :: cs).dropWhile isBlank)
      rw [← tokensFrom_append_of_blank hblank, hsplit] at hrest
      have hskip := Munched.skip (by rwa [hsplit]) rfl hrest
      rwa [hsplit] at hskip
    · have hsplit := cutLexeme_append c cs
      have hmatch := longestMatch_cutLexeme hc cs
      have hrest := munched_tokensFrom (pos + byteLength (cutLexeme c cs).1) (cutLexeme c cs).2
      obtain ⟨lexeme, hlexeme⟩ : ∃ ds, (cutLexeme c cs).1 = c :: ds := by
        obtain ⟨d, ds, hcons, -⟩ := Pattern.exists_cons_of_mem hmatch.mem
        obtain rfl := (List.cons_prefix_cons.1 (hcons ▸ hmatch.front)).1
        exact ⟨ds, hcons⟩
      have hkind := Pattern.kind?_ofHead hc lexeme
      rw [← hlexeme] at hkind
      have htoken := Munched.token (by rwa [hsplit]) hkind hrest
      rw [tokensFrom, if_neg hc]
      rwa [hsplit] at htoken
termination_by cs.length
decreasing_by
  · rw [List.dropWhile_cons_of_pos hc]
    exact Nat.lt_succ_of_le (List.dropWhile_suffix _).length_le
  · exact cutLexeme_length_lt c cs

/-- **The lexer reads longest matches.** A text can be read to its end by longest matches, in one
way only, and the tokens that are read are those of the lexer. -/
theorem munched_iff {pos : ℕ} {cs : List Char} {ts : List Token} :
    Munched pos cs ts ↔ ts = tokensFrom pos cs := by
  refine ⟨fun h => ?_, by rintro rfl; exact munched_tokensFrom pos cs⟩
  induction h with
  | done pos => rw [tokensFrom]
  | @skip pos p lexeme rest ts h hkind _ ih =>
    obtain rfl := Pattern.kind?_eq_none_iff.1 hkind
    rw [ih, tokensFrom_append_of_blank (mem_blanks_iff.1 h.mem).2]
  | @token pos p kind lexeme rest ts h hkind _ ih =>
    obtain ⟨c, ds, rfl, rfl⟩ := Pattern.exists_cons_of_mem h.mem
    by_cases hc : isBlank c
    · simp [Pattern.ofHead, hc, Pattern.kind?] at hkind
    · obtain ⟨heq, -⟩ := h.unique (longestMatch_cutLexeme hc (ds ++ rest))
      have hrest : (cutLexeme c (ds ++ rest)).2 = rest := by
        have := cutLexeme_append c (ds ++ rest)
        rw [← heq] at this
        exact List.append_cancel_left this
      rw [Pattern.kind?_ofHead hc] at hkind
      cases hkind
      rw [List.cons_append, tokensFrom, if_neg hc, ← heq, hrest, ih]

end FixpointLisp
