import FixpointLisp.Eval.Error
import FixpointLisp.Report.Basic

/-!
# Reports of errors

* `EvalError.toReport` labels the expression that an evaluation error is about.
* `LexicalError` is a stretch of text that is no token. The lexer reads every text and never raises
  it; it serves readers of other sources that report against a text.
-/

namespace FixpointLisp

namespace EvalError

/-- A text between grave accents. -/
def tick (s : String) : String := "`" ++ s ++ "`"

/-- The message of the report of an error. -/
def headline : Cause → String
  | .unbound name => "Unbound identifier " ++ tick name
  | .tooManyArguments _ _ => "Mismatched argument count"
  | .wrongArgumentCount _ _ _ => "Mismatched argument count"
  | .typeMismatch operator _ _ => "Type mismatch in " ++ tick operator.name
  | .malformed fault => "Malformed " ++ tick fault.form.name
  | .notCallable value => "Not callable: " ++ value.write
  | .emptyApplication => "Empty expression"

/-- The label of the report of an error. -/
def label : Cause → String
  | .unbound _ => "This atom resolves to nothing in the current scope"
  | .tooManyArguments callee given => Cause.countText callee.write "accepts" callee.arity given
  | .wrongArgumentCount callee wanted given =>
    Cause.countText (Cause.mark callee.name) "takes" wanted given
  | .typeMismatch _ expected found =>
    "Expected " ++ expected.write ++ ", found " ++ found.typeName ++ " " ++ found.write
  | .malformed fault => fault.write
  | .notCallable value => "A " ++ value.typeName ++ " cannot accept arguments"
  | .emptyApplication => "There is no operator to apply"

/-- The report of an error. -/
def toReport (err : EvalError) : Report := ⟨headline err.cause, label err.cause, err.expr.span⟩

/-- The text of the report of an error in a source text. -/
def report (err : EvalError) (source : String) : String := err.toReport.render source

end EvalError

/-- A stretch of text that is no token. -/
structure LexicalError where
  span : Span

namespace LexicalError

/-- What is wrong, in words. -/
def reason : String := "Invalid Token"

/-- A lexical error as a line of text. -/
def message (_ : LexicalError) : String := "Lexer Error during parse: " ++ reason

/-- The report of a lexical error. -/
def toReport (err : LexicalError) : Report := ⟨"Lexer Error", reason, err.span⟩

/-- The text of the report of a lexical error in a source text. -/
def report (err : LexicalError) (source : String) : String := err.toReport.render source

end LexicalError
end FixpointLisp
