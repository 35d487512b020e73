import FixpointLisp.Proofs.Eval.Failure
import FixpointLisp.Proofs.Eval.Simulation
import Mathlib.Tactic

/-!
# Strict and lenient evaluation, shallow and deep

A run that ends keeps its end when it may go deeper, and a strict run that does not end at an atom
without meaning keeps it when it is made lenient. Both compare a run with another one from the same
expression and environment, so both are cases of one likeness, equality.

* `eval_equal`: the comparison of the two runs.
* `eval_done_of_le`, `eval_failed_of_le`: deeper runs.
* `eval_lenient_of_done`, `eval_lenient_of_failed`: lenient runs.
* `eval_lenient_extends`: lenient evaluation conservatively extends strict evaluation.
-/

namespace FixpointLisp

variable {depth depth' : ℕ} {e : Expr} {E : Environment} {mode mode' : Resolution} {v : Value}
  {err : EvalError} {loose : Prop}

/-- The end of a run is met by that of a run which goes deeper or is loosened. -/
theorem eval_equal (hdepth : depth ≤ depth') (hmode : mode.Like (.equal loose) mode') :
    (eval depth e E mode).Like (.equal loose) (Value.Like (.equal loose))
      (eval depth' e E mode') :=
  Likeness.simulates_eval (Likeness.lawful_equal loose) hdepth rfl E.like_equal_self hmode

theorem eval_done_of_like (hdepth : depth ≤ depth') (hmode : mode.Like (.equal loose) mode')
    (h : eval depth e E mode = .done v) : eval depth' e E mode' = .done v := by
  have hlike := eval_equal (e := e) (E := E) hdepth hmode
  rw [h] at hlike
  obtain ⟨w, hw, hvw⟩ := hlike.exists_done
  rw [hw, Value.like_equal_iff.1 hvw]

theorem eval_failed_of_like (hdepth : depth ≤ depth') (hmode : mode.Like (.equal loose) mode')
    (h : eval depth e E mode = .failed err) (herr : loose → ∀ name, err.cause ≠ .unbound name) :
    eval depth' e E mode' = .failed err := by
  have hlike := eval_equal (e := e) (E := E) hdepth hmode
  rw [h] at hlike
  obtain ⟨err', herr', heq⟩ := hlike.exists_failed herr
  rw [herr', EvalError.Like.eq id heq]

/-! ### Deeper runs -/

theorem eval_done_of_le (hdepth : depth ≤ depth') (h : eval depth e E mode = .done v) :
    eval depth' e E mode = .done v :=
  eval_done_of_like hdepth (.same (R := .equal False) mode) h

theorem eval_failed_of_le (hdepth : depth ≤ depth') (h : eval depth e E mode = .failed err) :
    eval depth' e E mode = .failed err :=
  eval_failed_of_like hdepth (.same (R := .equal False) mode) h False.elim

/-! ### Lenient runs -/

theorem Resolution.like_lenient (mode : Resolution) : mode.Like (.equal True) .lenient := by
  cases mode with
  | strict => exact .loosened trivial
  | lenient => exact .same _

theorem eval_lenient_of_done (h : eval depth e E mode = .done v) :
    eval depth e E .lenient = .done v :=
  eval_done_of_like le_rfl mode.like_lenient h

theorem eval_lenient_of_failed (h : eval depth e E mode = .failed err)
    (herr : ∀ name, err.cause ≠ .unbound name) : eval depth e E .lenient = .failed err :=
  eval_failed_of_like le_rfl mode.like_lenient h fun _ => herr

/-- **Lenient evaluation conservatively extends strict evaluation.** It gives every value that strict
evaluation gives and every error other than an atom without meaning, and it never fails at an atom
without meaning, however deep inside it may be. -/
theorem eval_lenient_extends (depth : ℕ) (e : Expr) (E : Environment) :
    (∀ v, eval depth e E .strict = .done v → eval depth e E .lenient = .done v) ∧
    (∀ err, eval depth e E .strict = .failed err → (∀ name, err.cause ≠ .unbound name) →
      eval depth e E .lenient = .failed err) ∧
    ∀ err name, eval depth e E .lenient = .failed err → err.cause ≠ .unbound name := by
  refine ⟨fun v h => eval_lenient_of_done h, fun err h => eval_lenient_of_failed h, ?_⟩
  intro err name h hname
  cases eval_unbound_strict h hname

/-- The expression `((fun (x) (& x operand)) true)`, whose operand is evaluated inside a closure. -/
def conjoined (operand : String) : Expr :=
  .list
    [.list
      [.atom "fun" ⟨2, 5⟩, .list [.atom "x" ⟨7, 8⟩] ⟨6, 9⟩,
        .list [.atom "&" ⟨11, 12⟩, .atom "x" ⟨13, 14⟩, .atom operand ⟨15, 16⟩] ⟨10, 17⟩] ⟨1, 18⟩,
      .atom "true" ⟨19, 23⟩] ⟨0, 24⟩

/-- The scope in which the operand is evaluated. -/
def conjoinedScope : Environment := Environment.global.bind "x" (.boolean true)

/-- With `false` as operand there is a value, with `1` an error that both modes give, and with the
unbound `y` the error of the lenient mode is another one. -/
theorem eval_lenient_extends_conjoined :
    (eval 3 (conjoined "false") Environment.global .strict = .done (.boolean false) ∧
      eval 3 (conjoined "false") Environment.global .lenient = .done (.boolean false)) ∧
    (∃ err, eval 3 (conjoined "1") Environment.global .strict = .failed err ∧
      eval 3 (conjoined "1") Environment.global .lenient = .failed err) ∧
    ∃ err, eval 3 (conjoined "y") Environment.global .lenient = .failed err ∧
      err.cause ≠ .unbound "y" := by
  have hvalue : eval 3 (conjoined "false") Environment.global .strict = .done (.boolean false) := rfl
  have herror : eval 3 (conjoined "1") Environment.global .strict =
      .failed ⟨.typeMismatch .and .boolean (.number 1), .atom "1" ⟨15, 16⟩, conjoinedScope⟩ := rfl
  have hsymbol : eval 3 (conjoined "y") Environment.global .lenient =
      .failed ⟨.typeMismatch .and .boolean (.symbol "y"), .atom "y" ⟨15, 16⟩, conjoinedScope⟩ := rfl
  refine ⟨⟨hvalue, (eval_lenient_extends 3 _ _).1 _ hvalue⟩, ⟨_, herror, ?_⟩, ⟨_, hsymbol, ?_⟩⟩
  · exact (eval_lenient_extends 3 _ _).2.1 _ herror (by simp)
  · exact (eval_lenient_extends 3 _ _).2.2 _ "y" hsymbol

end FixpointLisp
