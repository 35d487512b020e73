import FixpointLisp.Proofs.Eval.Modes
import Mathlib.Tactic

/-!
# Errors reproduce themselves

An error carries the expression it is about and the environment in which that expression was
evaluated. Evaluating the one in the other shows the same failure again, wherever it happened: in an
argument, in the body of a closure or in a name that is evaluated leniently.

* `EvalError.ShownAt`: what evaluating an error's expression in its environment has to give.
* `shownAt_of_eval`: every error of an evaluation is shown, to the depth of that evaluation.
-/

namespace FixpointLisp

variable {depth depth' : ℕ} {err : EvalError}

/-- Whether evaluating the expression of an error in its environment shows the failure. An atom
without meaning fails again if it is evaluated strictly. An operand has the value that was not as
expected, and an application fails again, also leniently. -/
def EvalError.ShownAt (depth : ℕ) (err : EvalError) : Prop :=
  match err.cause with
  | .unbound _ => eval depth err.expr err.env .strict = .failed err
  | .typeMismatch _ _ found => eval depth err.expr err.env .lenient = .done found
  | _ => eval depth err.expr err.env .lenient = .failed err

namespace EvalError

theorem shownAt_of_application (hcause : err.cause.OfApplication) :
    err.ShownAt depth ↔ eval depth err.expr err.env .lenient = .failed err := by
  unfold ShownAt
  cases hc : err.cause with
  | unbound name =>
    rw [hc] at hcause
    exact hcause.elim
  | typeMismatch b expected found =>
    rw [hc] at hcause
    exact hcause.elim
  | _ => exact Iff.rfl

theorem ShownAt.of_le (h : err.ShownAt depth) (hdepth : depth ≤ depth') : err.ShownAt depth' := by
  unfold ShownAt at h ⊢
  cases hc : err.cause with
  | typeMismatch b expected found =>
    rw [hc] at h
    exact eval_done_of_le hdepth h
  | _ =>
    rw [hc] at h
    exact eval_failed_of_le hdepth h

end EvalError

/-- **Errors reproduce themselves.** When an evaluation fails, evaluating the expression of the error
in the environment of the error shows the same failure. -/
theorem shownAt_of_eval (depth : ℕ) (e : Expr) (E : Environment) (mode : Resolution)
    (err : EvalError) (h : eval depth e E mode = .failed err) : err.ShownAt depth := by
  induction depth generalizing e E mode with
  | zero => cases h
  | succ depth ih =>
    cases evalStep_failsBy (eval depth) e E mode err h with
    | part hmode hpart => exact (ih _ _ _ hpart).of_le depth.le_succ
    | operand hfound herr =>
      subst herr
      exact eval_lenient_of_done (eval_done_of_le depth.le_succ hfound)
    | atom hmode herr =>
      subst hmode herr
      exact h
    | application hcause hexpr henv =>
      -- The failing step may have been strict, but its error is none that lenience avoids.
      subst hexpr henv
      rw [EvalError.shownAt_of_application hcause]
      refine eval_lenient_of_failed h fun name hname => ?_
      rw [hname] at hcause
      exact hcause

/-- An atom without meaning inside a closure, found strictly and found leniently: the error holds the
scope of the body, and in it strict evaluation fails again and lenient evaluation gives a symbol. -/
theorem shownAt_of_eval_conjoined :
    (∃ err, eval 3 (conjoined "y") Environment.global .strict = .failed err ∧
      err.cause = .unbound "y" ∧ err.expr = .atom "y" ⟨15, 16⟩ ∧ err.env = conjoinedScope ∧
      err.ShownAt 3) ∧
    ∃ err, eval 3 (conjoined "y") Environment.global .lenient = .failed err ∧
      err.cause = .typeMismatch .and .boolean (.symbol "y") ∧ err.expr = .atom "y" ⟨15, 16⟩ ∧
      err.env = conjoinedScope ∧ err.ShownAt 3 := by
  have hstrict : eval 3 (conjoined "y") Environment.global .strict =
      .failed ⟨.unbound "y", .atom "y" ⟨15, 16⟩, conjoinedScope⟩ := rfl
  have hlenient : eval 3 (conjoined "y") Environment.global .lenient =
      .failed ⟨.typeMismatch .and .boolean (.symbol "y"), .atom "y" ⟨15, 16⟩, conjoinedScope⟩ := rfl
  exact ⟨⟨_, hstrict, rfl, rfl, rfl, shownAt_of_eval 3 _ _ _ _ hstrict⟩,
    ⟨_, hlenient, rfl, rfl, rfl, shownAt_of_eval 3 _ _ _ _ hlenient⟩⟩

end FixpointLisp
