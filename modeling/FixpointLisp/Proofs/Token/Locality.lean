import FixpointLisp.Proofs.Expr.Location
import FixpointLisp.Proofs.Token.Layout

/-!
# Lexing part by part

A text that is cut in front of a blank or a closing bracket can be read part by part: the tokens of
the second part, moved to where it stands, follow those of the first part. The only thing that can
go wrong is that the first part ends inside of a string, which then goes on into the second part.

* `Unclosed`: a token is a string without a quote to close it. `EndsUnclosed`: the last token of a
  text is one; `endsUnclosed_iff` says so of its last lexeme.
* `tokensFrom_append_of_endsInString`: such a token takes up characters of what follows.
* `tokenize_append_iff`: the tokens of both parts are those of the whole unless this happens.
-/

namespace FixpointLisp

open Text

variable {a b : String} {cs ds : List Char}

/-- Whether a token of a text is a string without a quote to close it: all quotes behind its first
character are escaped. -/
def Unclosed (a : String) (t : Token) : Prop :=
  ∃ front body back, t.span.Cuts a.toList front ('"' :: body) back ∧ QuotesEscaped body

/-- Whether the last token of a text is a string without a quote to close it. -/
def EndsUnclosed (a : String) : Prop := ∃ t ∈ (tokenize a).getLast?, Unclosed a t

theorem isUnclosed_iff {lexeme : List Char} :
    isUnclosed lexeme ↔ ∃ body, lexeme = '"' :: body ∧ QuotesEscaped body := by
  simp only [quotesEscaped_iff]
  constructor
  · intro h
    rw [isUnclosed.eq_def] at h
    split at h
    · next body => exact ⟨body, rfl, by simpa using h⟩
    · cases h
  · rintro ⟨body, rfl, h⟩
    simpa [isUnclosed] using h

theorem forall₂_getLast? {α β : Type} {r : α → β → Prop} {as : List α} {bs : List β}
    (h : List.Forall₂ r as bs) : Option.Rel r as.getLast? bs.getLast? := by
  rw [← List.head?_reverse, ← List.head?_reverse]
  have hreverse := List.rel_reverse h
  generalize as.reverse = as' at hreverse ⊢
  generalize bs.reverse = bs' at hreverse ⊢
  cases hreverse with
  | nil => exact .none
  | cons hab _ => exact .some hab

/-- The last token of a text is a string that is not closed if its last lexeme is. -/
theorem endsUnclosed_iff : EndsUnclosed a ↔ endsInString a.toList := by
  have hlast := forall₂_getLast? (forall₂_lexemes 0 a.toList)
  rw [← tokenize] at hlast
  rw [EndsUnclosed, endsInString]
  cases htoken : (tokenize a).getLast? with
  | none =>
    rw [htoken] at hlast
    generalize (lexemes a.toList).getLast? = o at hlast ⊢
    cases hlast
    simp
  | some t =>
    rw [htoken] at hlast
    generalize (lexemes a.toList).getLast? = o at hlast ⊢
    cases hlast with
    | @some _ lexeme hlexeme =>
      obtain ⟨front, back, htext, hspan, -⟩ := hlexeme
      have hcuts : t.span.Cuts a.toList front lexeme back := by
        refine ⟨htext, ?_, ?_⟩ <;> simp [hspan]
      rw [Option.any_some, isUnclosed_iff]
      constructor
      · rintro ⟨t', ht', front', body, back', hcuts', hbody⟩
        obtain rfl := Option.some.inj ht'
        exact ⟨body, (hcuts.unique hcuts').2, hbody⟩
      · rintro ⟨body, rfl, hbody⟩
        exact ⟨t, rfl, front, body, back, hcuts, hbody⟩

/-! ### Strings that go on -/

theorem cutQuoted_ne_nil (hds : ds ≠ []) : (cutQuoted ds).1 ≠ [] := by
  fun_cases cutQuoted ds with
  | case1 => exact absurd rfl hds
  | case2 cs => simp
  | case3 c cs => simp
  | case4 c cs hquote hescape => simp

/-- A quoted text that is not closed takes up at least one character of what follows. -/
theorem exists_cutQuoted_append_of_open (h : hasClosingQuote cs = false) (hds : ds ≠ []) :
    ∃ more, more ≠ [] ∧ (cutQuoted (cs ++ ds)).1 = cs ++ more := by
  fun_induction hasClosingQuote cs with
  | case1 => exact ⟨_, cutQuoted_ne_nil hds, rfl⟩
  | case2 cs => cases h
  | case3 c cs ih =>
    obtain ⟨more, hmore, hcut⟩ := ih h
    exact ⟨more, hmore, by simp [cutQuoted, hcut]⟩
  | case4 c cs hquote hescape ih =>
    obtain ⟨more, hmore, hcut⟩ := ih h
    by_cases hne : c = '\\'
    · -- The backslash is the last character and escapes the first one of `ds`.
      subst hne
      cases cs with
      | cons d cs => exact absurd rfl (hescape d cs rfl)
      | nil =>
        cases ds with
        | nil => exact absurd rfl hds
        | cons d ds => exact ⟨d :: (cutQuoted ds).1, by simp, by simp [cutQuoted]⟩
    · exact ⟨more, hmore, by rw [List.cons_append, cutQuoted_cons hquote hne, hcut]; rfl⟩

/-- The last token of a text that ends in a string reaches into what follows the text. -/
theorem tokensFrom_append_of_endsInString (h : endsInString cs) (hds : ds ≠ []) (pos : ℕ) :
    ∃ ts t t' us, tokensFrom pos cs = ts ++ [t] ∧ tokensFrom pos (cs ++ ds) = ts ++ t' :: us ∧
      t.span.stop < t'.span.stop := by
  fun_induction tokensFrom pos cs with
  | case1 => simp [endsInString] at h
  | case2 pos c cs hc ih =>
    rw [endsInString_cons_of_blank hc] at h
    obtain ⟨ts, t, t', us, htokens, htokens', hstop⟩ := ih h
    refine ⟨ts, t, t', us, htokens, ?_, hstop⟩
    rw [List.cons_append, tokensFrom, if_pos hc, htokens']
  | case3 pos c cs hc lexeme stop ih =>
    rw [List.cons_append, tokensFrom_cons hc]
    cases hunclosed : isUnclosed (cutLexeme c cs).1 with
    | true =>
      -- The string is the first token, and no other one is behind it.
      obtain ⟨rfl, hopen, hrest⟩ := cutLexeme_of_unclosed hunclosed
      obtain ⟨more, hmore, hcut⟩ := exists_cutQuoted_append_of_open hopen hds
      obtain ⟨d, more, rfl⟩ := List.exists_cons_of_ne_nil hmore
      refine ⟨[], _, _, _, by rw [hrest, tokensFrom]; rfl, rfl, ?_⟩
      have hlexeme : (cutLexeme '"' (cs ++ ds)).1 = (cutLexeme '"' cs).1 ++ d :: more := by
        simp [cutLexeme, cutQuoted_of_open hopen, hcut]
      rw [hlexeme, byteLength_append]
      exact Nat.add_lt_add_left (Nat.lt_add_of_pos_right (byteLength_pos d more)) pos
    | false =>
      rw [endsInString_cons hc, hunclosed, Bool.false_or] at h
      have hne : (cutLexeme c cs).2 ≠ [] := by
        intro hnil
        rw [hnil] at h
        simp [endsInString] at h
      obtain ⟨ts, t, t', us, htokens, htokens', hstop⟩ := ih h
      refine ⟨_ :: ts, t, t', us, congrArg _ htokens, ?_, hstop⟩
      rw [cutLexeme_append_of_ne_nil hne, htokens', List.cons_append]

/-! ### Reading a text part by part -/

theorem map_shift_tokenize (n : ℕ) (b : String) :
    (tokenize b).map (Token.shift n) = tokensFrom n b.toList := by
  rw [← Nat.zero_add n, tokensFrom_add, Nat.zero_add]
  rfl

/-- The tokens of a text that does not end in a string are followed by those of what is behind it,
unless an atom goes on there. -/
theorem tokenize_append_of_closed (ha : ¬EndsUnclosed a)
    (hb : ∀ c ∈ b.toList.head?, isAtomChar c = false) :
    tokenize (a ++ b) = tokenize a ++ (tokenize b).map (Token.shift a.utf8ByteSize) := by
  rw [endsUnclosed_iff, Bool.not_eq_true] at ha
  rw [map_shift_tokenize, tokenize, String.toList_append, tokensFrom_append ha hb, Nat.zero_add,
    byteLength_toList]
  rfl

/-- A string at the end of a text goes on into whatever follows the text. -/
theorem tokenize_append_ne_of_unclosed (ha : EndsUnclosed a) (hb : b ≠ "") (us : List Token) :
    tokenize (a ++ b) ≠ tokenize a ++ us := by
  have hne : b.toList ≠ [] := by simpa using hb
  obtain ⟨ts, t, t', us', htokens, htokens', hstop⟩ :=
    tokensFrom_append_of_endsInString (endsUnclosed_iff.1 ha) hne 0
  rw [tokenize, String.toList_append, htokens', tokenize, htokens, List.append_assoc,
    List.singleton_append]
  intro h
  obtain ⟨rfl, -⟩ := List.cons.inj (List.append_cancel_left h)
  exact Nat.lt_irrefl _ hstop

/-- **Lexing is local.** When the second part of a text is empty or starts with a blank or a closing
bracket, its tokens, moved behind the bytes of the first part, follow the tokens of the first part,
unless the second part goes on with a string that the first part leaves open. In this case they
never do. -/
theorem tokenize_append_iff (hb : ∀ c ∈ b.toList.head?, isBlank c ∨ c = ')') :
    tokenize (a ++ b) = tokenize a ++ (tokenize b).map (Token.shift a.utf8ByteSize) ↔
      b = "" ∨ ¬EndsUnclosed a := by
  have hhead : ∀ c ∈ b.toList.head?, isAtomChar c = false := by
    intro c hc
    rcases hb c hc with hblank | rfl
    · exact isAtomChar_of_blank hblank
    · rfl
  constructor
  · intro h
    by_contra hne
    obtain ⟨hne, hopen⟩ := not_or.1 hne
    exact tokenize_append_ne_of_unclosed (not_not.1 hopen) hne _ h
  · rintro (rfl | hclosed)
    · simp [map_shift_tokenize, tokensFrom]
    · exact tokenize_append_of_closed hclosed hhead

/-- An atom that holds a quote and a bracket, a string that ends in an escaped backslash, and behind
them a closing bracket: each part is read by itself. A string whose last quote is escaped is open,
and the bracket behind it belongs to it. -/
theorem tokenize_append_iff_escaped :
    (∀ c ∈ ") é".toList.head?, isBlank c ∨ c = ')') ∧
    ¬EndsUnclosed "λ\"( \"b\\\\\"" ∧
    tokenize ("λ\"( \"b\\\\\"" ++ ") é") =
      [⟨.atom "λ\"(", ⟨0, 4⟩⟩, ⟨.quoted "\"b\\\"", ⟨5, 10⟩⟩, ⟨.closeParen, ⟨10, 11⟩⟩,
        ⟨.atom "é", ⟨12, 14⟩⟩] ∧
    EndsUnclosed "\"b\\\"" ∧
    tokenize ("\"b\\\"" ++ ") é") ≠
      tokenize "\"b\\\"" ++ (tokenize ") é").map (Token.shift 4) := by
  have hb : ∀ c ∈ ") é".toList.head?, isBlank c ∨ c = ')' := by simp
  have hclosed : ¬EndsUnclosed "λ\"( \"b\\\\\"" := by
    rw [endsUnclosed_iff, Bool.not_eq_true]
    cbv
  have hopen : EndsUnclosed "\"b\\\"" := by
    rw [endsUnclosed_iff]
    cbv
  refine ⟨hb, hclosed, ?_, hopen, fun h => ?_⟩
  · rw [(tokenize_append_iff hb).2 (.inr hclosed), ← byteLength_toList]
    cbv
  · rcases (tokenize_append_iff hb).1 h with h | h
    · exact absurd h (by decide)
    · exact h hopen

end FixpointLisp
