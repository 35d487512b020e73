/-!
# Builtin operations

The operations that the global environment binds. Each has one name, by which it is bound, shown and
compared.

* `Builtin.all` lists them, `Builtin.name` names them and `Builtin.ofName?` finds one by its name.
-/

namespace FixpointLisp

/-- A builtin operation. -/
inductive Builtin where
  /-- `(fun (name ...) body)` makes a closure. -/
  | lambda
  /-- `(let ((name value) ...) body)` names values for a body. -/
  | binding
  /-- `(if condition then else)` chooses an expression. -/
  | branch
  | add
  | sub
  | mul
  | div
  | equal
  | greater
  | greaterEq
  | less
  | lessEq
  | and
  | or
  | not
  /-- `(str-first text)` is the first character of a text. -/
  | first
  /-- `(str-rest text)` is a text without its first character. -/
  | rest
  deriving DecidableEq, Repr

namespace Builtin

/-- The name of a builtin. -/
def name : Builtin → String
  | lambda => "fun"
  | binding => "let"
  | branch => "if"
  | add => "+"
  | sub => "-"
  | mul => "*"
  | div => "/"
  | equal => "="
  | greater => ">"
  | greaterEq => ">="
  | less => "<"
  | lessEq => "<="
  | and => "&"
  | or => "|"
  | not => "!"
  | first => "str-first"
  | rest => "str-rest"

/-- Every builtin. -/
def all : List Builtin :=
  [lambda, binding, branch, add, sub, mul, div, equal, greater, greaterEq, less, lessEq, and, or,
    not, first, rest]

/-- The builtin with a given name. -/
def ofName? (name : String) : Option Builtin := all.find? fun b => b.name == name

/-- Finding a builtin by its name gives that builtin, so no two have the same name. -/
theorem ofName?_name (b : Builtin) : ofName? b.name = some b := by cases b <;> decide

end Builtin
end FixpointLisp
