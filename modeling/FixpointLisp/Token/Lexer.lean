import FixpointLisp.Text.Blank
import FixpointLisp.Text.Bytes
import FixpointLisp.Token.Basic

/-!
# From text to tokens

Every text has exactly one sequence of tokens; there are no lexical errors.

* A bracket is a token of its own.
* A quoted text starts with `"` and runs to the first later `"` that no backslash escapes, or to the
  end of the text when there is none (`cutQuoted`).
* An atom starts with any other character that is not blank and runs up to the next blank or `)`
  (`isAtomChar`), so `a(b` and `a"b` are single atoms.

The characters of one token are its *lexeme*: `cutLexeme` divides a text into its first lexeme and
the rest, `TokenKind.ofLexeme` reads the lexeme, and `tokenize` repeats this to the end.
-/

namespace FixpointLisp

open Text

/-- Whether a character can stand inside an atom. -/
def isAtomChar (c : Char) : Bool := !isBlank c && c != ')'

/-- The text after an opening quote, cut behind the quote that closes it. -/
def cutQuoted : List Char → List Char × List Char
  | [] => ([], [])
  | '"' :: cs => (['"'], cs)
  | '\\' :: c :: cs => ('\\' :: c :: (cutQuoted cs).1, (cutQuoted cs).2)
  | c :: cs => (c :: (cutQuoted cs).1, (cutQuoted cs).2)

/-- The first lexeme of the text `c :: cs`, where `c` is not blank, and the text after it. -/
def cutLexeme (c : Char) (cs : List Char) : List Char × List Char :=
  if c = '(' ∨ c = ')' then ([c], cs)
  else if c = '"' then (c :: (cutQuoted cs).1, (cutQuoted cs).2)
  else (c :: cs.takeWhile isAtomChar, cs.dropWhile isAtomChar)

/-- A text without its escaping backslashes; the character behind each is kept as it is. -/
def unescape : List Char → List Char
  | [] => []
  | ['\\'] => []
  | '\\' :: c :: cs => c :: unescape cs
  | c :: cs => c :: unescape cs

/-- The kind of token that a lexeme spells. -/
def TokenKind.ofLexeme (lexeme : List Char) : TokenKind :=
  match lexeme with
  | '(' :: _ => .openParen
  | ')' :: _ => .closeParen
  | '"' :: _ => .quoted (String.ofList (unescape lexeme))
  | _ => .atom (String.ofList lexeme)

/-! ### Nothing is lost in a cut -/

theorem cutQuoted_append (cs : List Char) : (cutQuoted cs).1 ++ (cutQuoted cs).2 = cs := by
  fun_induction cutQuoted cs with simp_all

theorem cutLexeme_append (c : Char) (cs : List Char) :
    (cutLexeme c cs).1 ++ (cutLexeme c cs).2 = c :: cs := by
  unfold cutLexeme
  split
  · rfl
  · split
    · simp [cutQuoted_append]
    · simp [List.takeWhile_append_dropWhile]

/-- A lexeme is not empty. -/
theorem cutLexeme_ne_nil (c : Char) (cs : List Char) : (cutLexeme c cs).1 ≠ [] := by
  unfold cutLexeme
  split
  · simp
  · split <;> simp

/-- What follows the first lexeme of a text is shorter than the text. -/
theorem cutLexeme_length_lt (c : Char) (cs : List Char) :
    (cutLexeme c cs).2.length < (c :: cs).length := by
  have h := congrArg List.length (cutLexeme_append c cs)
  have := List.length_pos_iff.2 (cutLexeme_ne_nil c cs)
  simp only [List.length_append] at h
  omega

/-! ### The token sequence -/

/-- The tokens of a text whose first character is at byte `pos`. -/
def tokensFrom (pos : Nat) : List Char → List Token
  | [] => []
  | c :: cs =>
    if isBlank c then tokensFrom (pos + c.utf8Size) cs
    else
      let lexeme := (cutLexeme c cs).1
      let stop := pos + byteLength lexeme
      ⟨TokenKind.ofLexeme lexeme, ⟨pos, stop⟩⟩ :: tokensFrom stop (cutLexeme c cs).2
termination_by cs => cs.length
decreasing_by
  · simp
  · exact cutLexeme_length_lt c cs

/-- The tokens of a source text, in order. -/
def tokenize (source : String) : List Token := tokensFrom 0 source.toList

end FixpointLisp
