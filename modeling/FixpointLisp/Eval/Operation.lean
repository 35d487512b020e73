import FixpointLisp.Eval.Application

/-!
# The builtin operations

A builtin gets its arguments unevaluated, together with the place it is called from, and evaluates
those that it needs from left to right.

* `Value.total` adds up or joins evaluated operands.
* `CallSite` is that place; `CallSite.operand` evaluates an argument there, and `CallSite.number`,
  `CallSite.boolean` and `CallSite.nonFunction` also check its kind.
* `CallSite.lambda`, `CallSite.letIn` and `CallSite.branch` are the special forms.
* `CallSite.operate` is the operation of every builtin.
-/

namespace FixpointLisp

/-! ### Combining values -/

namespace Number

/-- The sum of numbers, from negative zero on and from left to right. -/
def sum (xs : List Float) : Float := xs.foldl (· + ·) (-0.0)

/-- Combines numbers from left to right, the first one being the start; without any it is `unit`. -/
def fold (unit : Float) (op : Float → Float → Float) : List Float → Float
  | [] => unit
  | x :: xs => xs.foldl op x

end Number

namespace Value

/-- The number in a value, if it is one. -/
def number? : Value → Option Float
  | number x => some x
  | _ => none

/-- Whether a value is a string. -/
def isString : Value → Bool
  | string _ => true
  | _ => false

/-- Whether a value is a truth value or a symbol. -/
def isSymbolic : Value → Bool
  | boolean _ => true
  | symbol _ => true
  | _ => false

/-- The text that a value contributes when it is joined to others: a string is its content. -/
def content : Value → String
  | string s => s
  | value => value.text?.getD ""

/-- Adds up values: with a string among them their texts are joined into a string, else with a truth
value or symbol among them into a symbol, and else their sum is taken. -/
def total (values : List Value) : Value :=
  if values.any isString then string (String.join (values.map content))
  else if values.any isSymbolic then symbol (String.join (values.map content))
  else number (Number.sum (values.filterMap number?))

end Value

/-! ### Call sites -/

/-- Where a builtin is called. -/
structure CallSite where
  operator : Builtin
  /-- The whole application. -/
  form : Expr
  env : Environment
  mode : Resolution

namespace CallSite

variable {α : Type}

/-! ### Operands -/

/-- Fails because the value `found` of the operand `arg` is not as expected. -/
def mismatch (site : CallSite) (expected : Expectation) (found : Value) (arg : Expr) : Outcome α :=
  .failed ⟨.typeMismatch site.operator expected found, arg, site.env⟩

/-- Fails because the form is malformed. -/
def malformed (site : CallSite) (fault : FormFault) : Outcome α :=
  .failed ⟨.malformed fault, site.form, site.env⟩

/-- Fails because of the number of arguments. -/
def wrongCount (site : CallSite) (wanted given : Nat) : Outcome α :=
  .failed ⟨.wrongArgumentCount site.operator wanted given, site.form, site.env⟩

/-- Evaluates an operand. -/
def operand (site : CallSite) (ev : Evaluator) (arg : Expr) : Outcome Value :=
  ev arg site.env site.mode

/-- Evaluates an operand that has to be a number. -/
def number (site : CallSite) (ev : Evaluator) (arg : Expr) : Outcome Float := do
  match ← site.operand ev arg with
  | .number x => .done x
  | found => site.mismatch .number found arg

/-- Evaluates an operand that has to be a truth value. -/
def boolean (site : CallSite) (ev : Evaluator) (arg : Expr) : Outcome Bool := do
  match ← site.operand ev arg with
  | .boolean b => .done b
  | found => site.mismatch .boolean found arg

/-- Evaluates an operand that must not be a function. -/
def nonFunction (site : CallSite) (ev : Evaluator) (expected : Expectation) (arg : Expr) :
    Outcome Value := do
  match ← site.operand ev arg with
  | .closure c => site.mismatch expected (.closure c) arg
  | .builtin b => site.mismatch expected (.builtin b) arg
  | value => .done value

/-- Evaluates the only operand. -/
def unary (site : CallSite) (operand : Expr → Outcome α) (args : List Expr) : Outcome α :=
  match args with
  | [arg] => operand arg
  | _ => site.wrongCount 1 args.length

/-- Evaluates the two operands, the left one first. -/
def binary (site : CallSite) (operand : Expr → Outcome α) (args : List Expr) : Outcome (α × α) :=
  match args with
  | [left, right] => do
    let a ← operand left
    let b ← operand right
    .done (a, b)
  | _ => site.wrongCount 2 args.length

/-! ### Operations on evaluated operands -/

/-- Combines all operands, which have to be numbers. -/
def arithmetic (site : CallSite) (ev : Evaluator) (unit : Float) (op : Float → Float → Float)
    (args : List Expr) : Outcome Value := do
  let xs ← args.mapM (site.number ev)
  .done (.number (Number.fold unit op xs))

/-- Compares two numbers. -/
def comparison (site : CallSite) (ev : Evaluator) (op : Float → Float → Bool) (args : List Expr) :
    Outcome Value := do
  let (x, y) ← site.binary (site.number ev) args
  .done (.boolean (op x y))

/-- Combines two truth values, both of which are evaluated. -/
def logic (site : CallSite) (ev : Evaluator) (op : Bool → Bool → Bool) (args : List Expr) :
    Outcome Value := do
  let (a, b) ← site.binary (site.boolean ev) args
  .done (.boolean (op a b))

/-- Changes the text of the only operand into a string. -/
def textual (site : CallSite) (ev : Evaluator) (op : List Char → List Char) (args : List Expr) :
    Outcome Value := do
  let value ← site.unary (site.nonFunction ev .nonFunction) args
  .done (.string (String.ofList (op value.content.toList)))

/-! ### Special forms -/

/-- Evaluates the name of a parameter. Names are evaluated leniently, so that a new name is a
symbol, and the canonical text of the value is the name. -/
def paramName (site : CallSite) (ev : Evaluator) (param : Expr) : Outcome String := do
  let value ← ev param site.env .lenient
  match value.text? with
  | some name => .done name
  | none => site.mismatch .parameterName value param

/-- The closure with the given parameters and body that captures the environment of the call. -/
def closure (site : CallSite) (ev : Evaluator) (params : List Expr) (body : Expr) :
    Outcome Closure := do
  let names ← params.mapM (site.paramName ev)
  .done (Closure.curried names body site.env)

/-- The parameters that an expression lists; an atom is a single one. -/
def paramsOf : Expr → List Expr
  | .list params _ => params
  | .atom text span => [.atom text span]

/-- `(fun (name ...) body)`. -/
def lambda (site : CallSite) (ev : Evaluator) (args : List Expr) : Outcome Value :=
  match args with
  | [params, body] => do
    let c ← site.closure ev (paramsOf params) body
    .done (.closure c)
  | _ => site.malformed (.lambdaShape args.length)

/-- A name and an expression for its value, taken from a list of two. -/
def bindingPair (site : CallSite) : Expr → Outcome (Expr × Expr)
  | .list [name, value] _ => .done (name, value)
  | given => site.malformed (.bindingNotPair given)

/-- `(let ((name value) ...) body)`: applies the closure with these names and this body to the
values, all of which are evaluated outside of it. -/
def letIn (site : CallSite) (ev : Evaluator) (args : List Expr) : Outcome Value :=
  match args with
  | [.list bindings _, body] => do
    let pairs ← bindings.mapM site.bindingPair
    let c ← site.closure ev (pairs.map Prod.fst) body
    applyClosure ev c (pairs.map Prod.snd) site.env site.mode site.form
  | [given, _] => site.malformed (.bindingsNotList given)
  | _ => site.malformed (.bindingShape args.length)

/-- `(if condition then else)`: only the chosen expression is evaluated. -/
def branch (site : CallSite) (ev : Evaluator) (args : List Expr) : Outcome Value :=
  match args with
  | [condition, yes, no] => do
    let b ← site.boolean ev condition
    site.operand ev (if b then yes else no)
  | _ => site.malformed (.branchShape args.length)

/-- Calls the builtin of the site. -/
def operate (site : CallSite) (ev : Evaluator) (args : List Expr) : Outcome Value :=
  match site.operator with
  | .lambda => site.lambda ev args
  | .binding => site.letIn ev args
  | .branch => site.branch ev args
  | .add => do
    let values ← args.mapM (site.nonFunction ev .addend)
    .done (Value.total values)
  | .sub => site.arithmetic ev 0 (· - ·) args
  | .mul => site.arithmetic ev 1 (· * ·) args
  | .div => site.arithmetic ev 1 (· / ·) args
  | .equal => do
    let (a, b) ← site.binary (site.operand ev) args
    .done (.boolean (a.same b))
  | .greater => site.comparison ev (fun x y => y < x) args
  | .greaterEq => site.comparison ev (fun x y => y ≤ x) args
  | .less => site.comparison ev (fun x y => x < y) args
  | .lessEq => site.comparison ev (fun x y => x ≤ y) args
  | .and => site.logic ev and args
  | .or => site.logic ev or args
  | .not => do
    let b ← site.unary (site.boolean ev) args
    .done (.boolean !b)
  | .first => site.textual ev (List.take 1) args
  | .rest => site.textual ev (List.drop 1) args

end CallSite
end FixpointLisp
