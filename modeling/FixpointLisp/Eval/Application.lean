import FixpointLisp.Eval.Outcome
import FixpointLisp.Value.Resolve

/-!
# Atoms and closures

This module evaluates atoms and applies closures. It leaves the evaluation of other expressions to a
parameter, the `Evaluator`, so that the recursion through expressions is tied in one place.

* `Resolution` says what becomes of an atom without meaning: an error, or a symbol.
* `resolveAtom` evaluates an atom.
* `passArguments` evaluates arguments one after the other in the scope of the caller and binds each
  in the scope that its link of the chain captured, which the next link takes over.
* `applyClosure` does so unless there are more arguments than the chain accepts.
-/

namespace FixpointLisp

/-- What becomes of an atom without meaning. -/
inductive Resolution where
  /-- It is an error. -/
  | strict
  /-- It is a symbol. -/
  | lenient
  deriving DecidableEq, Repr

/-- A way to evaluate expressions. -/
abbrev Evaluator := Expr → Environment → Resolution → Outcome Value

/-- Evaluates the atom `culprit`, whose text is `text`. -/
def resolveAtom (text : String) (culprit : Expr) (env : Environment) (mode : Resolution) :
    Outcome Value :=
  match env.resolve? text, mode with
  | some value, _ => .done value
  | none, .lenient => .done (.symbol text)
  | none, .strict => .failed ⟨.unbound text, culprit, env⟩

/-- Gives the arguments to the links of a chain one by one. A link without parameter ends this
whatever arguments are left, and so does the end of the arguments, with the closure that is left. -/
def passArguments (ev : Evaluator) (env : Environment) (mode : Resolution) :
    Closure → List Expr → Outcome Value
  | .last none scope body, _ => ev body scope mode
  | .link none _ next, _ => .done (.closure next)
  | .last (some p) scope body, [] => .done (.closure (.last (some p) scope body))
  | .link (some p) scope next, [] => .done (.closure (.link (some p) scope next))
  | .last (some p) scope body, arg :: _ => do
    let value ← ev arg env mode
    ev body (Environment.bind scope p value) mode
  | .link (some p) scope next, arg :: args => do
    let value ← ev arg env mode
    passArguments ev env mode (next.rebind (Environment.bind scope p value)) args

/-- Applies a closure to arguments, which are evaluated in `env`; `form` is the whole
application. -/
def applyClosure (ev : Evaluator) (c : Closure) (args : List Expr) (env : Environment)
    (mode : Resolution) (form : Expr) : Outcome Value :=
  if c.arity < args.length then .failed ⟨.tooManyArguments c args.length, form, env⟩
  else passArguments ev env mode c args

end FixpointLisp
