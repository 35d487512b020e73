import FixpointLisp.Value.Environment

/-!
# Evaluation errors

An error consists of its cause, the expression it is about and the environment in which that
expression was evaluated.

* `Expectation` says what kind of operand an operation wanted.
* `FormFault` says how a use of `fun`, `let` or `if` is malformed.
* `Cause` lists what can go wrong; `EvalError.message` puts it into a line of text.
-/

namespace FixpointLisp

/-- What an operation expects of an operand. -/
inductive Expectation where
  | number
  | boolean
  /-- A value with a canonical text, to serve as the name of a parameter. -/
  | parameterName
  /-- A value that can be added or joined. -/
  | addend
  /-- A value with a text, which functions do not have. -/
  | nonFunction
  deriving DecidableEq, Repr

/-- An expectation in words. -/
def Expectation.write : Expectation → String
  | number => "number"
  | boolean => "boolean"
  | parameterName => "a parameter name"
  | addend => "a number, string, boolean or symbol"
  | nonFunction => "a non-function value"

/-- How a special form is malformed. -/
inductive FormFault where
  /-- `fun` without exactly two arguments. -/
  | lambdaShape (given : Nat)
  /-- `let` without exactly two arguments. -/
  | bindingShape (given : Nat)
  /-- The bindings of `let` are not a list. -/
  | bindingsNotList (given : Expr)
  /-- A binding of `let` is not a list of two. -/
  | bindingNotPair (given : Expr)
  /-- `if` without exactly three arguments. -/
  | branchShape (given : Nat)

namespace FormFault

/-- The special form that is malformed. -/
def form : FormFault → Builtin
  | lambdaShape _ => .lambda
  | bindingShape _ => .binding
  | bindingsNotList _ => .binding
  | bindingNotPair _ => .binding
  | branchShape _ => .branch

/-- The fault in words. -/
def write : FormFault → String
  | lambdaShape given =>
    "syntax is (fun (params) body), given " ++ given.repr ++ " argument(s)"
  | bindingShape given =>
    "syntax is (let ((name value) ...) body), given " ++ given.repr ++ " argument(s)"
  | bindingsNotList given => "bindings must be a list of lists, given " ++ given.write
  | bindingNotPair given => "each binding must be a name bound to a value, given " ++ given.write
  | branchShape given =>
    "syntax is (if cond then else), given " ++ given.repr ++ " argument(s)"

end FormFault

/-- What can go wrong. -/
inductive Cause where
  /-- An atom means nothing. -/
  | unbound (name : String)
  /-- A closure is given more arguments than it accepts. -/
  | tooManyArguments (callee : Closure) (given : Nat)
  /-- A builtin is given a wrong number of arguments. -/
  | wrongArgumentCount (callee : Builtin) (wanted given : Nat)
  /-- An operand is not of the kind that an operation expects. -/
  | typeMismatch (operator : Builtin) (expected : Expectation) (found : Value)
  /-- A special form is malformed. -/
  | malformed (fault : FormFault)
  /-- A value that is no function is given arguments. -/
  | notCallable (value : Value)
  /-- An empty list is evaluated. -/
  | emptyApplication

/-- The number of arguments that a callee takes and the number it was given, in words. -/
def Cause.countText (callee verb : String) (wanted given : Nat) : String :=
  callee ++ " " ++ verb ++ " " ++ wanted.repr ++ " argument(s), given " ++ given.repr

/-- A name between single quotes. -/
def Cause.mark (name : String) : String := "'" ++ name ++ "'"

/-- A failed evaluation. -/
structure EvalError where
  cause : Cause
  /-- The expression the error is about. -/
  expr : Expr
  /-- The environment in which that expression was evaluated. -/
  env : Environment

namespace EvalError

/-- An error as a line of text. -/
def message (err : EvalError) : String :=
  match err.cause with
  | .unbound name => Cause.mark name ++ " is unbound in the environment"
  | .tooManyArguments callee given =>
    "Mismatched argument count: " ++ Cause.countText callee.write "accepts" callee.arity given
  | .wrongArgumentCount callee wanted given =>
    "Mismatched argument count: " ++ Cause.countText (Cause.mark callee.name) "takes" wanted given
  | .typeMismatch operator expected found =>
    "Type mismatch: " ++ Cause.mark operator.name ++ " expected " ++ expected.write ++ ", got " ++
      found.write
  | .malformed fault => "Malformed " ++ Cause.mark fault.form.name ++ ": " ++ fault.write
  | .notCallable value => "Gave arguments to " ++ value.write ++ ", which cannot accept them"
  | .emptyApplication => "Cannot evaluate an empty expression '()'"

end EvalError
end FixpointLisp
