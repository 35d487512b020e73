import FixpointLisp.Span

/-!
# Expressions

An expression is an atom, which is a piece of text, or a list of expressions; both carry the span of
source bytes they were read from. What an atom means is decided only when it is evaluated.

* `Expr.write` is the text of an expression.
* `Expr.same` compares two expressions without regard to their spans.
* `Expr.null` is the atom that stands for a missing expression.
-/

namespace FixpointLisp

/-- A source tree. -/
inductive Expr where
  | atom (text : String) (span : Span)
  | list (children : List Expr) (span : Span)
  deriving Repr

namespace Expr

/-- Where an expression was read from. -/
def span : Expr → Span
  | atom _ s => s
  | list _ s => s

/-- The text of the atom that stands for a missing expression. -/
def nullText : String := "NULL"

/-- The expression that is read where there is none. -/
def null (s : Span) : Expr := atom nullText s

/-- Whether an expression is the atom that stands for a missing one. -/
def isNull : Expr → Bool
  | atom text _ => text == nullText
  | list _ _ => false

mutual

/-- The text of an expression: atoms as they are, lists in brackets with single spaces between. -/
def write : Expr → String
  | atom text _ => text
  | list children _ => "(" ++ writeAll children ++ ")"

/-- The texts of several expressions with single spaces between. -/
def writeAll : List Expr → String
  | [] => ""
  | [e] => write e
  | e :: es => write e ++ " " ++ writeAll es

end

mutual

/-- Whether two expressions are equal up to their spans. -/
def same : Expr → Expr → Bool
  | atom s _, atom t _ => s == t
  | list es _, list fs _ => sameAll es fs
  | _, _ => false

/-- Whether two lists hold equal expressions, up to spans, in the same order. -/
def sameAll : List Expr → List Expr → Bool
  | [], [] => true
  | e :: es, f :: fs => same e f && sameAll es fs
  | _, _ => false

end

end Expr
end FixpointLisp
