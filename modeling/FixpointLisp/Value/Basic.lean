import FixpointLisp.Builtin
import FixpointLisp.Expr.Basic
import FixpointLisp.Number.Text

/-!
# Values, closures and environments

Values, the closures among them and the environments that closures capture are defined together.

* `Value` is a number, a truth value, a string, a symbol, a builtin or a closure.
* `Closure` is a chain of links. Each link has a parameter or none and the environment it captured;
  the last one holds the body. A function of several parameters is a chain with a link for each.
* `Bindings low` is a row of bindings in increasing order of names, all of them above `low`;
  an `Environment` is a row without lower bound. The order is part of the type, so two environments
  with the same bindings are equal.
* `Value.write` is the text of a value. `Value.text?` is its canonical text, by which it is fed back
  into the resolution of atoms; closures have none.
* `Value.same` is structural equality of values, where numbers compare as numbers do and spans do
  not count.
-/

namespace FixpointLisp

/-- Whether a name lies above a lower bound; without a bound every name does. -/
def Above : Option String → String → Prop
  | none, _ => True
  | some low, name => low < name

instance (low : Option String) (name : String) : Decidable (Above low name) :=
  match low with
  | none => .isTrue trivial
  | some low => inferInstanceAs (Decidable (low < name))

mutual

/-- What an expression evaluates to. -/
inductive Value where
  | number (x : Float)
  | boolean (b : Bool)
  | string (s : String)
  | symbol (s : String)
  | builtin (b : Builtin)
  | closure (c : Closure)

/-- A function value: a chain of links. -/
inductive Closure where
  /-- The last link, which holds the body. -/
  | last (param : Option String) (env : Bindings none) (body : Expr)
  /-- A link that is followed by another one. -/
  | link (param : Option String) (env : Bindings none) (next : Closure)

/-- Bindings of names above `low`, in increasing order of names. -/
inductive Bindings : Option String → Type where
  | nil {low : Option String} : Bindings low
  | cons {low : Option String} (name : String) (value : Value) (rest : Bindings (some name))
      (above : Above low name) : Bindings low

end

/-- What the names of a scope are bound to. -/
abbrev Environment := Bindings none

namespace Closure

/-- The parameter of the first link. -/
def param : Closure → Option String
  | last p _ _ => p
  | link p _ _ => p

/-- The environment that the first link captured. -/
def env : Closure → Environment
  | last _ e _ => e
  | link _ e _ => e

/-- The parameters of all links, in order. -/
def params : Closure → List (Option String)
  | last p _ _ => [p]
  | link p _ next => p :: next.params

/-- The body, which the last link holds. -/
def body : Closure → Expr
  | last _ _ b => b
  | link _ _ next => next.body

/-- The number of arguments that the chain accepts. -/
def arity (c : Closure) : Nat := c.params.countP Option.isSome

/-- The same chain with another environment captured by its first link. -/
def rebind (env : Environment) : Closure → Closure
  | last p _ b => last p env b
  | link p _ next => link p env next

/-- The chain for the given links, each of which captures `env`; `param` is that of the first. -/
def chain (env : Environment) (body : Expr) : Option String → List (Option String) → Closure
  | param, [] => last param env body
  | param, p :: ps => link param env (chain env body p ps)

/-- The chain for the given parameters, each link capturing `env`. Without parameters it is a single
link that has none. -/
def curried (params : List String) (body : Expr) (env : Environment) : Closure :=
  match params with
  | [] => last none env body
  | p :: ps => chain env body (some p) (ps.map some)

/-- The text of a closure. -/
def write (c : Closure) : String :=
  match c.param with
  | some p => "#<closure:" ++ p ++ ">"
  | none => "#<closure>"

end Closure

namespace Value

/-- The text of a truth value. -/
def boolText (b : Bool) : String := if b then "true" else "false"

/-- A text between double quotes. -/
def quote (s : String) : String := "\"" ++ s ++ "\""

/-- The text of a value. -/
def write : Value → String
  | number x => Number.write x
  | boolean b => boolText b
  | string s => quote s
  | symbol s => s
  | builtin b => "#<builtin:" ++ b.name ++ ">"
  | closure c => c.write

/-- The canonical text of a value, which closures do not have. -/
def text? : Value → Option String
  | number x => some (Number.write x)
  | boolean b => some (boolText b)
  | string s => some (quote s)
  | symbol s => some s
  | builtin b => some b.name
  | closure _ => none

/-- The name of the type of a value. -/
def typeName : Value → String
  | number _ => "number"
  | boolean _ => "boolean"
  | string _ => "string"
  | symbol _ => "symbol"
  | builtin _ => "builtin"
  | closure _ => "closure"

end Value

/-! ### Structural equality -/

mutual

/-- Whether two values are equal. -/
def Value.same : Value → Value → Bool
  | .number x, .number y => x == y
  | .boolean a, .boolean b => a == b
  | .string s, .string t => s == t
  | .symbol s, .symbol t => s == t
  | .builtin a, .builtin b => a == b
  | .closure c, .closure d => c.same d
  | _, _ => false

/-- Whether two chains have equal parameters, bodies and captured environments. -/
def Closure.same : Closure → Closure → Bool
  | .last p e b, .last q f d => p == q && b.same d && e.same f
  | .link p e next, .link q f next' => p == q && next.same next' && e.same f
  | _, _ => false

/-- Whether two rows bind the same names to equal values. -/
def Bindings.same {low low' : Option String} : Bindings low → Bindings low' → Bool
  | .nil, .nil => true
  | .cons name value rest _, .cons name' value' rest' _ =>
    name == name' && value.same value' && rest.same rest'
  | _, _ => false

end

end FixpointLisp
