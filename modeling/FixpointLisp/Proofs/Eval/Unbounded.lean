import FixpointLisp.Proofs.Eval.Modes
import FixpointLisp.Proofs.Eval.Settled
import FixpointLisp.Proofs.Eval.Visits
import Mathlib.Order.Filter.AtTopBot.Basic
import Mathlib.Tactic

/-!
# Evaluation without a bound

Evaluation is carried out to a bounded depth, and an outcome that is reached at some depth stays the
same at all greater ones. So there is an outcome without any bound, which is exhausted only when
evaluation does not end. It does not mention depths, and a step of evaluation that leaves its parts
to it gives it back: expressions can be compared by unfolding the steps of both.

* `Yields`: evaluation ends in an outcome, at some depth.
* `Equivalent`: two expressions end in the same outcomes.
* `evaluate`: the outcome without a bound.
* `Asking.eventually_eq`: a computation that asks finitely often cannot tell `evaluate` from
  evaluation to a depth that is great enough.
* `evaluate_eq`: `evaluate` is its own step.
* `equivalent_iff`: expressions are equivalent if they have the same outcome without a bound.
* `evaluate_bind_reinterpret`: that outcome is settled.
-/

namespace FixpointLisp

open Filter

variable {E : Environment} {mode : Resolution} {e f : Expr} {o : Outcome Value} {depth depth' : ℕ}

/-- Whether evaluation of an expression ends in the given outcome, at some depth. -/
def Yields (E : Environment) (mode : Resolution) (e : Expr) (o : Outcome Value) : Prop :=
  o ≠ .exhausted ∧ ∃ depth, eval depth e E mode = o

/-- Whether two expressions evaluate to the same value, or to the same error, or both without
end. -/
def Equivalent (E : Environment) (mode : Resolution) (e f : Expr) : Prop :=
  ∀ o, Yields E mode e o ↔ Yields E mode f o

/-- The outcome of evaluation without a bound on the depth. It is exhausted if there is none at any
depth. -/
noncomputable def evaluate : Evaluator := fun e E mode =>
  open Classical in
  if h : ∃ depth, eval depth e E mode ≠ .exhausted then eval h.choose e E mode else .exhausted

/-! ### Depths that are great enough -/

/-- Only an exhausted outcome can be met by another one, if values and errors have to be equal. -/
theorem Outcome.Like.eq_of_equal {o o' : Outcome Value}
    (h : o.Like (.equal False) (Value.Like (.equal False)) o') (ho : o ≠ .exhausted) : o' = o := by
  cases h with
  | done h => rw [Value.like_equal_iff.1 h]
  | failed h => rw [EvalError.Like.eq id h]
  | excused h => exact h.elim
  | exhausted => exact absurd rfl ho

theorem eval_eq_of_le (hdepth : depth ≤ depth') (h : eval depth e E mode ≠ .exhausted) :
    eval depth' e E mode = eval depth e E mode :=
  (eval_equal hdepth (.same mode)).eq_of_equal h

theorem eval_eq_evaluate (h : eval depth e E mode ≠ .exhausted) :
    eval depth e E mode = evaluate e E mode := by
  have hexists : ∃ depth, eval depth e E mode ≠ .exhausted := ⟨depth, h⟩
  rw [evaluate, dif_pos hexists]
  rcases le_total depth hexists.choose with hle | hle
  · exact (eval_eq_of_le hle h).symm
  · exact eval_eq_of_le hle hexists.choose_spec

/-- At each depth evaluation is exhausted or has the outcome without a bound. -/
theorem eval_eq_exhausted_or (depth : ℕ) (e : Expr) (E : Environment) (mode : Resolution) :
    eval depth e E mode = .exhausted ∨ eval depth e E mode = evaluate e E mode := by
  by_cases h : eval depth e E mode = .exhausted
  · exact .inl h
  · exact .inr (eval_eq_evaluate h)

theorem exists_eval_eq (e : Expr) (E : Environment) (mode : Resolution) :
    ∃ depth, eval depth e E mode = evaluate e E mode := by
  by_cases h : ∃ depth, eval depth e E mode ≠ .exhausted
  · obtain ⟨depth, h⟩ := h
    exact ⟨depth, eval_eq_evaluate h⟩
  · exact ⟨0, by rw [eval_zero, evaluate, dif_neg h]⟩

theorem eventually_eval_eq (e : Expr) (E : Environment) (mode : Resolution) :
    ∀ᶠ depth in atTop, eval depth e E mode = evaluate e E mode := by
  obtain ⟨depth, h⟩ := exists_eval_eq e E mode
  filter_upwards [eventually_ge_atTop depth] with depth' hdepth
  rcases eval_eq_exhausted_or depth' e E mode with hexhausted | heq
  · -- An outcome at the smaller depth would not be lost at the greater one.
    rw [hexhausted, ← h]
    by_contra hne
    exact Ne.symm hne ((eval_eq_of_le hdepth (Ne.symm hne)).symm.trans hexhausted)
  · exact heq

/-! ### Steps without a bound -/

/-- A computation asks for finitely many tasks, and there is a depth at which all of them have their
outcomes. -/
theorem Asking.eventually_eq {α : Type} {f : Evaluator → Outcome α} (hf : Asking f) :
    ∀ᶠ depth in atTop, f (eval depth) = f evaluate := by
  induction hf with
  | answer o => exact .of_forall fun _ => rfl
  | @ask t k _ ih =>
    have ht : ∀ᶠ depth in atTop, t.outcome (eval depth) = t.outcome evaluate :=
      eventually_eval_eq t.expr t.env t.mode
    cases ho : t.outcome evaluate with
    | done v =>
      filter_upwards [ht, ih v] with depth ht hk
      simp only [ht, ho, Outcome.done_bind, hk]
    | failed err =>
      filter_upwards [ht] with depth ht
      simp only [ht, ho, Outcome.failed_bind]
    | exhausted =>
      filter_upwards [ht] with depth ht
      simp only [ht, ho, Outcome.exhausted_bind]

/-- The outcome without a bound is that of a step whose parts are evaluated without a bound. -/
theorem evaluate_eq (e : Expr) (E : Environment) (mode : Resolution) :
    evaluate e E mode = evalStep evaluate e E mode := by
  have hdeeper : ∀ᶠ depth in atTop, eval (depth + 1) e E mode = evaluate e E mode :=
    (tendsto_add_atTop_nat 1).eventually (eventually_eval_eq e E mode)
  have hstep : ∀ᶠ depth in atTop, evalStep (eval depth) e E mode = evalStep evaluate e E mode :=
    (asking_evalStep ⟨e, E, mode⟩).eventually_eq
  obtain ⟨depth, h, h'⟩ := (hdeeper.and hstep).exists
  rw [← h, eval_succ, h']

theorem evaluate_atom (text : String) (span : Span) (E : Environment) (mode : Resolution) :
    evaluate (.atom text span) E mode = resolveAtom text (.atom text span) E mode :=
  evaluate_eq _ _ _

/-- An outcome without a bound is not changed by settling its value. -/
theorem evaluate_bind_reinterpret (e : Expr) (E : Environment) (mode : Resolution) :
    (evaluate e E mode >>= fun v => .done (E.reinterpret v)) = evaluate e E mode := by
  cases ho : evaluate e E mode with
  | failed err => rfl
  | exhausted => rfl
  | done v =>
    rw [Outcome.done_bind]
    congr 1
    match e, ho with
    | .atom text span, ho =>
      rw [evaluate_atom] at ho
      exact reinterpret_of_resolveAtom ho
    | .list [] span, ho =>
      rw [evaluate_eq] at ho
      cases ho
    | .list (operator :: args) span, ho =>
      rw [evaluate_eq] at ho
      obtain ⟨callee, -, ho⟩ := Outcome.bind_eq_done_iff.1 ho
      obtain ⟨value, -, ho⟩ := Outcome.bind_eq_done_iff.1 ho
      cases ho
      exact Environment.reinterpret_reinterpret E value

/-! ### Outcomes at some depth -/

theorem yields_iff : Yields E mode e o ↔ o ≠ .exhausted ∧ evaluate e E mode = o := by
  constructor
  · rintro ⟨ho, depth, h⟩
    exact ⟨ho, by rw [← eval_eq_evaluate (by rwa [h]), h]⟩
  · rintro ⟨ho, rfl⟩
    exact ⟨ho, exists_eval_eq e E mode⟩

theorem Yields.evaluate_eq (h : Yields E mode e o) : evaluate e E mode = o := (yields_iff.1 h).2

theorem yields_done_iff {v : Value} : Yields E mode e (.done v) ↔ evaluate e E mode = .done v := by
  simp [yields_iff]

/-- A value that evaluation ends in is settled. -/
theorem Yields.reinterpret_eq {v : Value} (h : Yields E mode e (.done v)) :
    E.reinterpret v = v := by
  have hsettled := evaluate_bind_reinterpret e E mode
  rw [h.evaluate_eq, Outcome.done_bind] at hsettled
  exact Outcome.done.inj hsettled

theorem yields_failed_iff {err : EvalError} :
    Yields E mode e (.failed err) ↔ evaluate e E mode = .failed err := by
  simp [yields_iff]

/-- Expressions are equivalent if they have the same outcome without a bound. -/
theorem equivalent_iff : Equivalent E mode e f ↔ evaluate e E mode = evaluate f E mode := by
  constructor
  · intro h
    by_cases ho : evaluate e E mode = .exhausted
    · by_contra hne
      have hf : Yields E mode f (evaluate f E mode) :=
        yields_iff.2 ⟨fun hf => hne (ho.trans hf.symm), rfl⟩
      exact hne ((h _).2 hf).evaluate_eq
    · exact ((h _).1 (yields_iff.2 ⟨ho, rfl⟩)).evaluate_eq.symm
  · intro h o
    rw [yields_iff, yields_iff, h]

end FixpointLisp
