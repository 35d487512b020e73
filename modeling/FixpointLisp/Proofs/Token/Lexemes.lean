import FixpointLisp.Token.Lexer
import Mathlib.Data.List.TakeWhile
import Mathlib.Tactic

/-!
# The lexemes of a text

The kinds of the tokens of a text depend on its lexemes alone, not on where these stand. A text can
be cut between two lexemes, and its parts then have the lexemes of the whole. This fails only where
the first part ends inside of a quoted text or the second part goes on with an atom.

* `lexemes` lists the lexemes of a text; `kinds_tokenize` reads the tokens off them.
* `hasClosingQuote`: a quote that no backslash escapes follows an opening one.
* `endsInString`: the last lexeme of a text is a quoted text that is not closed.
* `cutLexeme_cases`: what the first lexeme of a text can be.
* `lexemes_append`: cutting a text between two lexemes.
* `kinds_trim`: taking off the blanks at its ends leaves the tokens of a text as they are.
-/

namespace FixpointLisp

open Text

/-- The lexemes of a text, in order. -/
def lexemes : List Char → List (List Char)
  | [] => []
  | c :: cs =>
    if isBlank c then lexemes cs else (cutLexeme c cs).1 :: lexemes (cutLexeme c cs).2
termination_by cs => cs.length
decreasing_by
  · simp
  · exact cutLexeme_length_lt c cs

@[simp] theorem lexemes_nil : lexemes [] = [] := by simp [lexemes]

theorem lexemes_cons_of_blank {c : Char} (hc : isBlank c) (cs : List Char) :
    lexemes (c :: cs) = lexemes cs := by
  rw [lexemes, if_pos hc]

theorem lexemes_cons {c : Char} (hc : ¬isBlank c) (cs : List Char) :
    lexemes (c :: cs) = (cutLexeme c cs).1 :: lexemes (cutLexeme c cs).2 := by
  rw [lexemes, if_neg hc]

/-- Blanks in front of a text do not matter. -/
theorem lexemes_append_of_blank {bs : List Char} (hbs : ∀ c ∈ bs, isBlank c) (cs : List Char) :
    lexemes (bs ++ cs) = lexemes cs := by
  induction bs with
  | nil => rfl
  | cons b bs ih =>
    obtain ⟨hb, hbs⟩ := List.forall_mem_cons.1 hbs
    rw [List.cons_append, lexemes_cons_of_blank hb, ih hbs]

/-- The kinds of the tokens that a text spells. -/
def kinds (cs : List Char) : List TokenKind := (lexemes cs).map TokenKind.ofLexeme

theorem kinds_cons_of_blank {c : Char} (hc : isBlank c) (cs : List Char) :
    kinds (c :: cs) = kinds cs := by
  rw [kinds, lexemes_cons_of_blank hc, kinds]

theorem kinds_cons {c : Char} (hc : ¬isBlank c) (cs : List Char) :
    kinds (c :: cs) = TokenKind.ofLexeme (cutLexeme c cs).1 :: kinds (cutLexeme c cs).2 := by
  rw [kinds, lexemes_cons hc, List.map_cons, kinds]

theorem kinds_tokensFrom (pos : ℕ) (cs : List Char) :
    (tokensFrom pos cs).map Token.kind = kinds cs := by
  fun_induction tokensFrom pos cs with
  | case1 => simp [kinds]
  | case2 pos c cs hc ih => rw [ih, kinds_cons_of_blank hc]
  | case3 pos c cs hc lexeme stop ih => rw [List.map_cons, ih, kinds_cons hc]

theorem kinds_tokenize (source : String) :
    (tokenize source).map Token.kind = kinds source.toList :=
  kinds_tokensFrom 0 source.toList

/-! ### Quoted texts -/

/-- Whether the text after an opening quote holds a quote that no backslash escapes. -/
def hasClosingQuote : List Char → Bool
  | [] => false
  | '"' :: _ => true
  | '\\' :: _ :: cs => hasClosingQuote cs
  | _ :: cs => hasClosingQuote cs

/-- Whether a lexeme is a quoted text that is not closed. -/
def isUnclosed : List Char → Bool
  | '"' :: cs => !hasClosingQuote cs
  | _ => false

/-- Whether the last lexeme of a text is a quoted text that is not closed. -/
def endsInString (cs : List Char) : Bool := (lexemes cs).getLast?.any isUnclosed

theorem hasClosingQuote_cons {c : Char} (hquote : c ≠ '"') (hescape : c ≠ '\\') (cs : List Char) :
    hasClosingQuote (c :: cs) = hasClosingQuote cs := by
  rw [hasClosingQuote]
  · simpa using hquote
  · simp [hescape]

theorem cutQuoted_cons {c : Char} (hquote : c ≠ '"') (hescape : c ≠ '\\') (cs : List Char) :
    cutQuoted (c :: cs) = (c :: (cutQuoted cs).1, (cutQuoted cs).2) := by
  rw [cutQuoted]
  · simpa using hquote
  · simp [hescape]

/-- Without a quote to close it, a quoted text runs to the end. -/
theorem cutQuoted_of_open {cs : List Char} (h : hasClosingQuote cs = false) :
    cutQuoted cs = (cs, []) := by
  fun_induction hasClosingQuote cs with
  | case1 => rfl
  | case2 cs => cases h
  | case3 c cs ih => simp [cutQuoted, ih h]
  | case4 c cs hquote hescape ih => simp_all [cutQuoted]

/-- In front of a closing quote, a backslash would escape the character behind it. -/
theorem ne_escape_of_closed {c : Char} {cs : List Char} (h : hasClosingQuote cs)
    (hescape : ∀ d ds, c = '\\' → cs = d :: ds → False) : c ≠ '\\' := by
  rintro rfl
  cases cs with
  | nil => cases h
  | cons d ds => exact hescape d ds rfl rfl

/-- A quoted text that is closed does not depend on what follows it. -/
theorem cutQuoted_append_of_closed {cs : List Char} (h : hasClosingQuote cs) (ds : List Char) :
    cutQuoted (cs ++ ds) = ((cutQuoted cs).1, (cutQuoted cs).2 ++ ds) := by
  fun_induction hasClosingQuote cs with
  | case1 => cases h
  | case2 cs => simp [cutQuoted]
  | case3 c cs ih => simp [cutQuoted, ih h]
  | case4 c cs hquote hescape ih =>
    have hne := ne_escape_of_closed h hescape
    rw [List.cons_append, cutQuoted_cons hquote hne, cutQuoted_cons hquote hne, ih h]

theorem hasClosingQuote_cutQuoted (cs : List Char) :
    hasClosingQuote (cutQuoted cs).1 = hasClosingQuote cs := by
  fun_induction cutQuoted cs with
  | case1 => rfl
  | case2 cs => rfl
  | case3 c cs ih => simpa [cutQuoted, hasClosingQuote] using ih
  | case4 c cs hquote hescape ih =>
    by_cases hne : c = '\\'
    · subst hne
      cases cs with
      | nil => rfl
      | cons d cs => exact absurd rfl (hescape d cs rfl)
    · rw [hasClosingQuote_cons hquote hne, hasClosingQuote_cons hquote hne, ih]

theorem hasClosingQuote_of_not_mem {cs : List Char} (h : '"' ∉ cs) :
    hasClosingQuote cs = false := by
  fun_induction hasClosingQuote cs with
  | case1 => rfl
  | case2 cs => exact absurd List.mem_cons_self h
  | case3 c cs ih => exact ih fun hmem => h (by simp [hmem])
  | case4 c cs hquote hescape ih => exact ih fun hmem => h (by simp [hmem])

/-- A quoted text that is not closed stays so when no quote follows. -/
theorem hasClosingQuote_append_of_not_mem {cs ds : List Char} (h : hasClosingQuote cs = false)
    (hds : '"' ∉ ds) : hasClosingQuote (cs ++ ds) = false := by
  fun_induction hasClosingQuote cs with
  | case1 => exact hasClosingQuote_of_not_mem hds
  | case2 cs => cases h
  | case3 c cs ih => simpa [hasClosingQuote] using ih h
  | case4 c cs hquote hescape ih =>
    by_cases hne : c = '\\'
    · -- The backslash is the last character and escapes the first one of `ds`.
      subst hne
      cases cs with
      | cons d cs => exact absurd rfl (hescape d cs rfl)
      | nil =>
        cases ds with
        | nil => rfl
        | cons d ds =>
          simpa [hasClosingQuote] using hasClosingQuote_of_not_mem fun h => hds (by simp [h])
    · rw [List.cons_append, hasClosingQuote_cons hquote hne, ih h]

/-! ### The first lexeme -/

/-- The first lexeme is a bracket, a quoted text or an atom. -/
theorem cutLexeme_cases (c : Char) (cs : List Char) :
    (c = '(' ∧ cutLexeme c cs = (['('], cs)) ∨
    (c = ')' ∧ cutLexeme c cs = ([')'], cs)) ∨
    (c = '"' ∧ cutLexeme c cs = ('"' :: (cutQuoted cs).1, (cutQuoted cs).2)) ∨
    (c ≠ '(' ∧ c ≠ ')' ∧ c ≠ '"' ∧
      cutLexeme c cs = (c :: cs.takeWhile isAtomChar, cs.dropWhile isAtomChar)) := by
  unfold cutLexeme
  by_cases hopen : c = '('
  · subst hopen
    exact .inl ⟨rfl, rfl⟩
  · by_cases hclose : c = ')'
    · subst hclose
      exact .inr (.inl ⟨rfl, rfl⟩)
    · by_cases hquote : c = '"'
      · subst hquote
        exact .inr (.inr (.inl ⟨rfl, rfl⟩))
      · refine .inr (.inr (.inr ⟨hopen, hclose, hquote, ?_⟩))
        simp [hopen, hclose, hquote]

/-- A lexeme that is not closed is the last one. -/
theorem cutLexeme_of_unclosed {c : Char} {cs : List Char} (h : isUnclosed (cutLexeme c cs).1) :
    c = '"' ∧ hasClosingQuote cs = false ∧ (cutLexeme c cs).2 = [] := by
  rcases cutLexeme_cases c cs with ⟨-, hcut⟩ | ⟨-, hcut⟩ | ⟨hc, hcut⟩ | ⟨-, -, hc, hcut⟩
  · rw [hcut] at h
    cases h
  · rw [hcut] at h
    cases h
  · rw [hcut] at h ⊢
    have hopen : hasClosingQuote cs = false := by
      simpa [isUnclosed, hasClosingQuote_cutQuoted] using h
    exact ⟨hc, hopen, by rw [cutQuoted_of_open hopen]⟩
  · rw [hcut] at h
    simp [isUnclosed, hc] at h

theorem endsInString_cons_of_blank {c : Char} (hc : isBlank c) (cs : List Char) :
    endsInString (c :: cs) = endsInString cs := by
  rw [endsInString, endsInString, lexemes_cons_of_blank hc]

theorem endsInString_cons {c : Char} (hc : ¬isBlank c) (cs : List Char) :
    endsInString (c :: cs) =
      (isUnclosed (cutLexeme c cs).1 || endsInString (cutLexeme c cs).2) := by
  rw [endsInString, lexemes_cons hc, List.getLast?_cons, endsInString]
  cases hunclosed : isUnclosed (cutLexeme c cs).1 with
  | true =>
    rw [(cutLexeme_of_unclosed hunclosed).2.2]
    simp [hunclosed]
  | false => cases hlast : (lexemes (cutLexeme c cs).2).getLast? <;> simp [hunclosed]

/-- The atom characters at the front of a text do not go on into a text that starts with none. -/
theorem takeWhile_append_of_head {ds : List Char} (hds : ∀ d ∈ ds.head?, isAtomChar d = false)
    (cs : List Char) :
    (cs ++ ds).takeWhile isAtomChar = cs.takeWhile isAtomChar ∧
      (cs ++ ds).dropWhile isAtomChar = cs.dropWhile isAtomChar ++ ds := by
  induction cs with
  | nil =>
    cases ds with
    | nil => simp
    | cons d ds => simp [hds d rfl]
  | cons c cs ih =>
    by_cases hc : isAtomChar c
    · simp [hc, ih]
    · simp [hc]

/-- The first lexeme of a text does not depend on what follows the text, unless it is not closed or
an atom that goes on. -/
theorem cutLexeme_append_of_head {c : Char} {cs ds : List Char}
    (h : isUnclosed (cutLexeme c cs).1 = false) (hds : ∀ d ∈ ds.head?, isAtomChar d = false) :
    cutLexeme c (cs ++ ds) = ((cutLexeme c cs).1, (cutLexeme c cs).2 ++ ds) := by
  rcases cutLexeme_cases c cs with ⟨rfl, -⟩ | ⟨rfl, -⟩ | ⟨rfl, hcut⟩ | ⟨ho, hc, hq, hcut⟩
  · rfl
  · rfl
  · rw [hcut] at h
    have hclosed : hasClosingQuote cs := by
      simpa [isUnclosed, hasClosingQuote_cutQuoted] using h
    simp [cutLexeme, cutQuoted_append_of_closed hclosed]
  · obtain ⟨htake, hdrop⟩ := takeWhile_append_of_head hds cs
    simp [cutLexeme, ho, hc, hq, htake, hdrop]

/-- A text that does not end in a string can be cut off in front of anything that does not go on
with an atom. -/
theorem lexemes_append {cs ds : List Char} (h : endsInString cs = false)
    (hds : ∀ d ∈ ds.head?, isAtomChar d = false) :
    lexemes (cs ++ ds) = lexemes cs ++ lexemes ds := by
  fun_induction lexemes cs with
  | case1 => rfl
  | case2 c cs hc ih =>
    rw [endsInString_cons_of_blank hc] at h
    rw [List.cons_append, lexemes_cons_of_blank hc, ih h]
  | case3 c cs hc ih =>
    rw [endsInString_cons hc, Bool.or_eq_false_iff] at h
    rw [List.cons_append, lexemes_cons hc, cutLexeme_append_of_head h.1 hds, ih h.2,
      List.cons_append]

theorem kinds_append {cs ds : List Char} (h : endsInString cs = false)
    (hds : ∀ d ∈ ds.head?, isAtomChar d = false) : kinds (cs ++ ds) = kinds cs ++ kinds ds := by
  rw [kinds, lexemes_append h hds, List.map_append]
  rfl

/-! ### Blanks at the ends -/

theorem isAtomChar_of_blank {c : Char} (hc : isBlank c) : isAtomChar c = false := by
  simp [isAtomChar, hc]

theorem not_blank_quote : ¬isBlank '"' := by decide

/-- Blanks after a text do not close a quoted text at its end. -/
theorem endsInString_append_of_blank {cs ds : List Char} (hds : ∀ d ∈ ds, isBlank d)
    (h : endsInString cs) : endsInString (cs ++ ds) := by
  have hquote : '"' ∉ ds := fun hmem => not_blank_quote (hds _ hmem)
  have hhead : ∀ d ∈ ds.head?, isAtomChar d = false := fun d hd =>
    isAtomChar_of_blank (hds d (List.mem_of_mem_head? hd))
  fun_induction lexemes cs with
  | case1 => simp [endsInString] at h
  | case2 c cs hc ih =>
    rw [endsInString_cons_of_blank hc] at h
    rw [List.cons_append, endsInString_cons_of_blank hc]
    exact ih h
  | case3 c cs hc ih =>
    rw [List.cons_append, endsInString_cons hc]
    cases hunclosed : isUnclosed (cutLexeme c cs).1 with
    | true =>
      obtain ⟨rfl, hopen, -⟩ := cutLexeme_of_unclosed hunclosed
      have hopen' := hasClosingQuote_append_of_not_mem hopen hquote
      simp [cutLexeme, cutQuoted_of_open hopen', isUnclosed, hopen']
    | false =>
      rw [endsInString_cons hc, hunclosed, Bool.false_or] at h
      rw [cutLexeme_append_of_head hunclosed hhead, ih h, Bool.or_true]

theorem exists_trimEnd_append (cs : List Char) :
    ∃ bs, (∀ b ∈ bs, isBlank b) ∧ cs = trimEnd cs ++ bs := by
  refine ⟨(cs.reverse.takeWhile isBlank).reverse, fun b hb => ?_, ?_⟩
  · exact List.mem_takeWhile_imp (List.mem_reverse.1 hb)
  · rw [trimEnd, ← List.reverse_append, List.takeWhile_append_dropWhile, List.reverse_reverse]

theorem exists_append_trim (cs : List Char) :
    ∃ as bs, (∀ a ∈ as, isBlank a) ∧ (∀ b ∈ bs, isBlank b) ∧ cs = as ++ (trim cs ++ bs) := by
  obtain ⟨bs, hbs, h⟩ := exists_trimEnd_append (cs.dropWhile isBlank)
  refine ⟨cs.takeWhile isBlank, bs, fun a ha => List.mem_takeWhile_imp ha, hbs, ?_⟩
  rw [trim, ← h, List.takeWhile_append_dropWhile]

/-- Blanks at the ends of a text do not matter. -/
theorem kinds_trim {cs : List Char} (h : endsInString cs = false) : kinds (trim cs) = kinds cs := by
  obtain ⟨as, bs, has, hbs, hcs⟩ := exists_append_trim cs
  have hlexemes : lexemes cs = lexemes (trim cs ++ bs) := by
    rw [hcs, lexemes_append_of_blank has, ← hcs]
  have hends : endsInString (trim cs) = false := by
    by_contra hne
    have := endsInString_append_of_blank hbs (Bool.of_not_eq_false hne)
    rw [endsInString, ← hlexemes] at this
    rw [endsInString, this] at h
    cases h
  have hhead : ∀ b ∈ bs.head?, isAtomChar b = false := fun b hb =>
    isAtomChar_of_blank (hbs b (List.mem_of_mem_head? hb))
  have hblank : lexemes bs = [] := by simpa using lexemes_append_of_blank hbs []
  rw [kinds, kinds, hlexemes, lexemes_append hends hhead, hblank, List.append_nil]

end FixpointLisp
