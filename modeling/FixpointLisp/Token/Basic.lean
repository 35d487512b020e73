import FixpointLisp.Span

/-!
# Tokens

A source text is a sequence of tokens: brackets, quoted texts and atoms, each with the span of bytes
it was read from.

* `TokenKind` says what a token is and carries the text it stands for. A quoted text keeps its
  quotes and has lost the backslashes that escape characters.
* `Token` is a kind with its span.
-/

namespace FixpointLisp

/-- What a token is. -/
inductive TokenKind where
  | openParen
  | closeParen
  | quoted (text : String)
  | atom (text : String)
  deriving DecidableEq, Repr

namespace TokenKind

/-- The text of a token. -/
def write : TokenKind → String
  | openParen => "("
  | closeParen => ")"
  | quoted text => text
  | atom text => text

end TokenKind

/-- A token and the bytes it was read from. -/
structure Token where
  kind : TokenKind
  span : Span
  deriving DecidableEq, Repr

/-- The same token `n` bytes further on. -/
def Token.shift (n : Nat) (t : Token) : Token := ⟨t.kind, t.span.shift n⟩

end FixpointLisp
