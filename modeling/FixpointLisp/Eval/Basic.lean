import FixpointLisp.Eval.Operation
import FixpointLisp.Expr.Parser

/-!
# Evaluation

An atom evaluates to its settled meaning. A list applies its first child to the others, and its
value is settled once more.

* `call` applies a value to arguments.
* `evalStep` evaluates an expression with the help of an evaluator for its parts, and `eval` ties
  the knot: `eval depth` evaluates to a recursion depth of `depth`.
* `run` evaluates the first expression of a source text.
-/

namespace FixpointLisp

/-- Applies a value to arguments; `form` is the whole application. A value that is no function
stands for itself when there are no arguments. -/
def call (ev : Evaluator) (callee : Value) (args : List Expr) (env : Environment)
    (mode : Resolution) (form : Expr) : Outcome Value :=
  match callee with
  | .builtin b => CallSite.operate ⟨b, form, env, mode⟩ ev args
  | .closure c => applyClosure ev c args env mode form
  | value => if args.isEmpty then .done value else .failed ⟨.notCallable value, form, env⟩

/-- Evaluates an expression whose parts are evaluated by `ev`. -/
def evalStep (ev : Evaluator) : Evaluator
  | .atom text span, env, mode => resolveAtom text (.atom text span) env mode
  | .list [] span, env, _ => .failed ⟨.emptyApplication, .list [] span, env⟩
  | .list (operator :: args) span, env, mode => do
    let callee ← ev operator env mode
    let value ← call ev callee args env mode (.list (operator :: args) span)
    .done (env.reinterpret value)

/-- Evaluates an expression to a bounded recursion depth. -/
def eval : Nat → Evaluator
  | 0 => fun _ _ _ => .exhausted
  | depth + 1 => evalStep (eval depth)

@[simp] theorem eval_zero (e : Expr) (env : Environment) (mode : Resolution) :
    eval 0 e env mode = .exhausted := rfl

theorem eval_succ (depth : Nat) : eval (depth + 1) = evalStep (eval depth) := rfl

/-- Evaluates the first expression of a source text; an atom without meaning is an error. -/
def run (depth : Nat) (source : String) (env : Environment) : Outcome Value :=
  eval depth (parse source) env .strict

end FixpointLisp
