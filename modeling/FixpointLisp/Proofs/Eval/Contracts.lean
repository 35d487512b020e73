import FixpointLisp.Proofs.Eval.Visits
import Mathlib.Tactic

/-!
# Contracts of computations

A step of evaluation asks for the outcomes of tasks. A contract says for which ones it may ask, with
which values it may be answered and with which errors it may fail. A computation that keeps to a
contract as long as it is answered in its terms can be treated as a whole: what it comes to depends
only on the tasks of the contract.

* `Contract` and `Outcome.Meets`: the terms, and outcomes that obey them.
* `Contract.Allows`: a computation keeps to a contract, and its own values have a property. `bind`
  and `mapM` put such computations together.
* `Allows.meets`, `Allows.ne_exhausted` and `Allows.task_of_needs`: when an evaluator is faithful to
  the contract, the outcome of the computation meets it, it is not exhausted unless that of a part
  is, and every part that the computation needs is a task of the contract.
-/

namespace FixpointLisp

/-- The terms on which a computation asks an evaluator. -/
structure Contract where
  /-- Tasks that may be asked for. -/
  task : Task → Prop
  /-- Values with which they may be answered. -/
  value : Value → Prop
  /-- Errors with which they, and the computation, may fail. -/
  error : EvalError → Prop

variable {α β : Type} {K : Contract} {P : α → Prop} {Q : β → Prop} {S : EvalError → Prop}
  {ev ev' : Evaluator}

/-- Whether an outcome is a value with the property `P`, an error with the property `S`, or
exhausted. -/
inductive Outcome.Meets (S : EvalError → Prop) (P : α → Prop) : Outcome α → Prop
  | done {a : α} (h : P a) : Meets S P (.done a)
  | failed {err : EvalError} (h : S err) : Meets S P (.failed err)
  | exhausted : Meets S P .exhausted

theorem Outcome.Meets.bind {o : Outcome α} {f : α → Outcome β} (ho : o.Meets S P)
    (hf : ∀ a, P a → (f a).Meets S Q) : (o >>= f).Meets S Q := by
  cases ho with
  | done h => exact hf _ h
  | failed h => exact .failed h
  | exhausted => exact .exhausted

theorem Outcome.Meets.of_done {o : Outcome α} {a : α} (h : o.Meets S P) (ho : o = .done a) :
    P a := by
  subst ho
  cases h with
  | done h => exact h

theorem Outcome.Meets.of_failed {o : Outcome α} {err : EvalError} (h : o.Meets S P)
    (ho : o = .failed err) : S err := by
  subst ho
  cases h with
  | failed h => exact h

namespace Contract

/-- Whether an evaluator obeys a contract in the tasks that may be asked for. -/
def Faithful (K : Contract) (ev : Evaluator) : Prop :=
  ∀ t, K.task t → (t.outcome ev).Meets K.error K.value

/-- Whether a computation keeps to a contract while it is answered in its terms, and comes to values
with a property. -/
inductive Allows (K : Contract) (P : α → Prop) : (Evaluator → Outcome α) → Prop
  | done {a : α} (h : P a) : Allows K P fun _ => .done a
  | failed {err : EvalError} (h : K.error err) : Allows K P fun _ => .failed err
  | ask {t : Task} (ht : K.task t) {k : Value → Evaluator → Outcome α}
      (hk : ∀ v, K.value v → Allows K P (k v)) :
      Allows K P fun ev => t.outcome ev >>= fun v => k v ev

theorem allows_part {e : Expr} {E : Environment} {mode : Resolution} (h : K.task ⟨e, E, mode⟩) :
    K.Allows K.value fun ev => ev e E mode := by
  have hask := Allows.ask h fun v hv => Allows.done (K := K) (P := K.value) hv
  have hpure : ∀ o : Outcome Value, (o >>= fun v => .done v) = o := bind_pure
  simp only [hpure] at hask
  exact hask

namespace Allows

variable {f : Evaluator → Outcome α} {g : α → Evaluator → Outcome β}

theorem bind (hf : K.Allows P f) (hg : ∀ a, P a → K.Allows Q (g a)) :
    K.Allows Q fun ev => f ev >>= fun a => g a ev := by
  induction hf with
  | done ha => exact hg _ ha
  | failed herr => exact .failed herr
  | ask ht _ ih =>
    simp only [bind_assoc]
    exact .ask ht ih

theorem mapM {xs : List α} (hg : ∀ x ∈ xs, K.Allows Q (g x)) :
    K.Allows (fun ys => ys.length = xs.length ∧ ∀ y ∈ ys, Q y)
      fun ev => xs.mapM fun x => g x ev := by
  induction xs with
  | nil => exact .done (by simp)
  | cons x xs ih =>
    obtain ⟨hx, hxs⟩ := List.forall_mem_cons.1 hg
    simp only [List.mapM_cons]
    refine hx.bind fun y hy => (ih hxs).bind fun ys hys => .done ⟨?_, ?_⟩
    · rw [List.length_cons, hys.1, List.length_cons]
    · exact List.forall_mem_cons.2 ⟨hy, hys.2⟩

/-! ### Faithful evaluators -/

theorem meets (hf : K.Allows P f) (hev : K.Faithful ev) : (f ev).Meets K.error P := by
  induction hf with
  | done h => exact .done h
  | failed h => exact .failed h
  | ask ht _ ih => exact (hev _ ht).bind ih

theorem ne_exhausted (hf : K.Allows P f) (hev : K.Faithful ev)
    (hends : ∀ t, K.task t → t.outcome ev ≠ .exhausted) : f ev ≠ .exhausted := by
  induction hf with
  | done _ => simp
  | failed _ => simp
  | @ask t ht k _ ih =>
    beta_reduce
    cases ho : t.outcome ev with
    | done v => exact ih v ((hev t ht).of_done ho)
    | failed err => simp
    | exhausted => exact absurd ho (hends t ht)

/-- The outcome depends on nothing but the tasks of the contract. -/
theorem congr (hf : K.Allows P f) (hev : K.Faithful ev)
    (h : ∀ t, K.task t → t.outcome ev' = t.outcome ev) : f ev' = f ev := by
  induction hf with
  | done _ => rfl
  | failed _ => rfl
  | @ask t ht k _ ih =>
    simp only [h t ht]
    cases ho : t.outcome ev with
    | done v => exact ih v ((hev t ht).of_done ho)
    | failed err => rfl
    | exhausted => rfl

theorem task_of_needs {t : Task} (hf : K.Allows P f) (hev : K.Faithful ev) (h : Needs f ev t) :
    K.task t := by
  obtain ⟨ev', hagree, hne⟩ := h
  by_contra ht
  refine hne (hf.congr hev fun u hu => hagree u ?_)
  rintro rfl
  exact ht hu

end Allows
end Contract
end FixpointLisp
