import FixpointLisp.Eval.Basic
import FixpointLisp.Proofs.Eval.Outcome
import FixpointLisp.Proofs.Value.Settle

/-!
# Results are settled

Whatever an expression evaluates to in an environment means itself there: settling it once more in
the same environment gives back the very same value. The value may have been found at a closure, at a
text without meaning, at a literal that spells itself or on a cycle of bindings.

* `reinterpret_of_resolveAtom`: this holds of atoms.
* `reinterpret_of_eval`: it holds of all expressions, and settling is idempotent.
-/

namespace FixpointLisp

open Environment

variable {E : Environment} {mode : Resolution} {v : Value}

/-- In both modes an atom evaluates to the settled meaning of its text, if there is one. -/
theorem resolveAtom_of_resolve? {text : String} (h : E.resolve? text = some v) (culprit : Expr)
    (mode : Resolution) : resolveAtom text culprit E mode = .done v := by
  simp [resolveAtom, h]

theorem reinterpret_of_resolveAtom {text : String} {culprit : Expr}
    (h : resolveAtom text culprit E mode = .done v) : E.reinterpret v = v := by
  unfold resolveAtom at h
  split at h
  case h_1 value hresolve =>
    cases h
    exact reinterpret_of_resolve? hresolve
  case h_2 hnone =>
    cases h
    refine reinterpret_of_meaningless fun t ht => ?_
    cases ht
    exact resolve?_eq_none_iff.1 hnone
  case h_3 => cases h

/-- **Every result is settled.** A value to which an expression evaluates in an environment is not
changed by settling it there, and settling any value twice is the same as settling it once. -/
theorem reinterpret_of_eval (E : Environment) :
    (∀ (depth : ℕ) (e : Expr) (mode : Resolution) (v : Value),
      eval depth e E mode = .done v → E.reinterpret v = v) ∧
    ∀ v, E.reinterpret (E.reinterpret v) = E.reinterpret v := by
  refine ⟨fun depth e mode v h => ?_, reinterpret_reinterpret E⟩
  cases depth with
  | zero => cases h
  | succ depth =>
    rw [eval_succ] at h
    match e, h with
    | .atom text span, h => exact reinterpret_of_resolveAtom h
    | .list [] span, h => cases h
    | .list (operator :: args) span, h =>
      obtain ⟨callee, -, h⟩ := Outcome.bind_eq_done_iff.1 h
      obtain ⟨value, -, h⟩ := Outcome.bind_eq_done_iff.1 h
      cases h
      exact reinterpret_reinterpret E value

/-- An environment in which `1` and `2` are bound to each other. -/
def swapped : Environment := (Environment.empty.bind "1" (.number 2)).bind "2" (.number 1)

/-- On a cycle of bindings: `1` evaluates to the number one, which is what the cycle leads back to. -/
theorem reinterpret_of_eval_swapped :
    eval 1 (.atom "1" ⟨0, 1⟩) swapped .strict = .done (.number 1) ∧
      swapped.reinterpret (.number 1) = .number 1 :=
  have h : eval 1 (.atom "1" ⟨0, 1⟩) swapped .strict = .done (.number 1) := rfl
  ⟨h, (reinterpret_of_eval swapped).1 1 _ _ _ h⟩

end FixpointLisp
